import OktaScim.GroupPatchEffect

/-!
What a group PATCH leaves alone: the memberships it does not name. A value of
a removal is not checked to be a string, and one that is not is read by Prisma
as a filter over all members of the group.
-/
namespace OktaScim.GroupPatchFrame

open Schema JsValues PrismaClient Bodies GroupPatch GroupPatchMeaning GroupPatchEffect Requests

/-- Only memberships of `id` whose user is named in a removal are gone, and
only memberships of `id` whose user is named in an addition are new. -/
structure TouchesNamed (id : String) (ops : List (Option PatchOperation)) (s s' : Store) :
    Prop where
  removed : ∀ m ∈ s.members, m ∈ s'.members ∨ (m.groupId = id ∧ NamedInRemove ops (.str m.userId))
  added : ∀ m ∈ s'.members, m ∈ s.members ∨ (m.groupId = id ∧ NamedInAdd ops (.str m.userId))

/-- Every current member that a value other than a string selects for removal
is named as a string as well, for removal or for addition. -/
def SelectsNamed (E : Engine) (id : String) (ops : List (Option PatchOperation)) (s : Store) :
    Prop :=
  ∀ u ∈ s.memberIds id, ∀ v, (∀ t, v ≠ .str t) → NamedInRemove ops v → Selects E v u →
    NamedInRemove ops (.str u) ∨ NamedInAdd ops (.str u)

section Patched

variable {E : Engine} {now : ℕ} {id : String} {r : GroupPatchResult}
  {ops : List (Option PatchOperation)} {s s' : Store}

theorem patched_members (hr : applyGroupPatch ops = some r) (h : Patched E now id r s s')
    (m : ScimGroupMember) :
    m ∈ s'.members ↔
      (m ∈ s.members ∧ ¬(m.groupId = id ∧ ∃ v, NamedInRemove ops v ∧ Selects E v m.userId)) ∨
        (m.groupId = id ∧ NamedInAdd ops (.str m.userId)) := by
  rw [h.members m, (applyGroupPatch_members hr _).1]
  simp only [(applyGroupPatch_members hr _).2]

/-- New memberships are always ones the request names. -/
theorem patched_added (hr : applyGroupPatch ops = some r) (h : Patched E now id r s s')
    (m : ScimGroupMember) (hm : m ∈ s'.members) :
    m ∈ s.members ∨ (m.groupId = id ∧ NamedInAdd ops (.str m.userId)) := by
  rcases (patched_members hr h m).mp hm with hold | hnew
  · exact Or.inl hold.1
  · exact Or.inr hnew

theorem patched_touchesNamed_iff (hr : applyGroupPatch ops = some r)
    (h : Patched E now id r s s') : TouchesNamed id ops s s' ↔ SelectsNamed E id ops s := by
  constructor
  · intro hframe u hu v _ hv hsel
    have hmem : (⟨id, u⟩ : ScimGroupMember) ∈ s.members := Store.mem_memberIds.mp hu
    rcases hframe.removed ⟨id, u⟩ hmem with hstays | ⟨_, hnamed⟩
    · rcases (patched_members hr h ⟨id, u⟩).mp hstays with ⟨_, hnot⟩ | ⟨_, hadd⟩
      · exact absurd ⟨rfl, v, hv, hsel⟩ hnot
      · exact Or.inr hadd
    · exact Or.inl hnamed
  · intro hsel
    refine ⟨fun m hm => ?_, fun m hm => patched_added hr h m hm⟩
    by_cases hgone : m.groupId = id ∧ ∃ v, NamedInRemove ops v ∧ Selects E v m.userId
    · obtain ⟨hid, v, hv, hvsel⟩ := hgone
      have hnamed : NamedInRemove ops (.str m.userId) ∨ NamedInAdd ops (.str m.userId) := by
        by_cases hstr : ∃ t, v = .str t
        · obtain ⟨t, rfl⟩ := hstr
          rw [(selects_str E t m.userId).mp hvsel]
          exact Or.inl hv
        · have hmem : m.userId ∈ s.memberIds id := by
            rw [Store.mem_memberIds, ← hid]
            exact hm
          exact hsel m.userId hmem v (not_exists.mp hstr) hv hvsel
      rcases hnamed with hrem | hadd
      · exact Or.inr ⟨hid, hrem⟩
      · exact Or.inl ((patched_members hr h m).mpr (Or.inr ⟨hid, hadd⟩))
    · exact Or.inl ((patched_members hr h m).mpr (Or.inl ⟨hm, hgone⟩))

end Patched

/-- A PATCH that succeeds touches only memberships it names exactly when its
values that are not strings select no other member. -/
theorem patchGroup_touchesNamed_iff {env : Env} {ticks : ℕ → Tick} {id : String}
    {ops : List (Option PatchOperation)} {s s' : Store} {a : Answer}
    (h : serve env ticks (.patchGroup id ops) s = (.ok a, s')) :
    TouchesNamed id ops s s' ↔ SelectsNamed env.engine id ops s := by
  obtain ⟨r, _, hr, _, hpatched, _, _⟩ := patchGroup_ok h
  exact patched_touchesNamed_iff hr hpatched

/-- Two users in one group. -/
def crowdedStore : Store :=
  ⟨[sampleUser "u" "ann", sampleUser "v" "bob"], [sampleGroup "g" "staff"],
    [⟨"g", "u"⟩, ⟨"g", "v"⟩]⟩

theorem patchGroup_touchesNamed_iff_sample :
    TouchesNamed "g" [some (membersOperation "remove" ["v"])] crowdedStore
        { crowdedStore with members := [⟨"g", "u"⟩] } ↔
      SelectsNamed sampleEnv.engine "g" [some (membersOperation "remove" ["v"])] crowdedStore := by
  have h : serve sampleEnv sampleTicks (.patchGroup "g" [some (membersOperation "remove" ["v"])])
      crowdedStore = (.ok _, { crowdedStore with members := [⟨"g", "u"⟩] }) := rfl
  exact patchGroup_touchesNamed_iff h

/-- A removal whose listed value is the object `{ "not": "zzz" }`. -/
def removeOthers : PatchOperation :=
  ⟨some "remove", some "members",
    some (.arr [.obj [("value", .obj [("not", .str "zzz")])]])⟩

/-- It removes both members, and it names neither of them. -/
theorem removeOthers_touches_all :
    ∃ a s', serve sampleEnv sampleTicks (.patchGroup "g" [some removeOthers]) crowdedStore =
        (.ok a, s') ∧ s'.members = [] ∧
      ¬TouchesNamed "g" [some removeOthers] crowdedStore s' := by
  refine ⟨_, _, rfl, by decide, fun hframe => ?_⟩
  rcases hframe.removed ⟨"g", "u"⟩ (by decide) with hstays | ⟨_, hnamed⟩
  · exact absurd hstays (by decide)
  · have hr : applyGroupPatch [some removeOthers] =
        some ⟨none, none, [], [.obj [("not", .str "zzz")]]⟩ := rfl
    have hmem := (applyGroupPatch_members hr _).2.mpr hnamed
    simp at hmem

end OktaScim.GroupPatchFrame
