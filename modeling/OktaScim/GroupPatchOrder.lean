import OktaScim.GroupPatchEffect

/-!
One group PATCH with two lists of operations against one PATCH for each list.
The translation keeps no order between removals and additions, so the two ways
part where the second list removes what only the first one adds.
-/
namespace OktaScim.GroupPatchOrder

open Schema JsValues PrismaClient Bodies GroupPatch GroupPatchMeaning GroupPatchEffect Requests

/-- The two stores show the same group under `id`. -/
structure SameGroup (s s' : Store) (id : String) : Prop where
  displayName : (s.group id).map ScimGroup.displayName = (s'.group id).map ScimGroup.displayName
  externalId : (s.group id).map ScimGroup.externalId = (s'.group id).map ScimGroup.externalId
  members : ∀ u, u ∈ s.memberIds id ↔ u ∈ s'.memberIds id

section Composition

variable {E : Engine} {now₁ now₂ now₃ : ℕ} {id : String} {r₁ r₂ : GroupPatchResult}
  {s s₁ s₂ s₃ : Store}

/-- The columns come out the same: the last value set is the one that stays. -/
theorem patched_columns_append (h₁ : Patched E now₁ id r₁ s s₁) (h₂ : Patched E now₂ id r₂ s₁ s₂)
    (h₃ : Patched E now₃ id (append r₁ r₂) s s₃) :
    (s₂.group id).map ScimGroup.displayName = (s₃.group id).map ScimGroup.displayName ∧
      (s₂.group id).map ScimGroup.externalId = (s₃.group id).map ScimGroup.externalId := by
  obtain ⟨hname₁, hext₁⟩ := h₁.columns
  obtain ⟨hname₂, hext₂⟩ := h₂.columns
  obtain ⟨hname₃, hext₃⟩ := h₃.columns
  have hname : (s₁.group id).map (fun g => r₂.displayName.getD g.displayName) =
      ((s₁.group id).map ScimGroup.displayName).map r₂.displayName.getD := by
    rw [Option.map_map]
    rfl
  have hext : (s₁.group id).map (fun g => r₂.externalId.or g.externalId) =
      ((s₁.group id).map ScimGroup.externalId).map r₂.externalId.or := by
    rw [Option.map_map]
    rfl
  rw [hname₂, hname, hname₁, hname₃, hext₂, hext, hext₁, hext₃, Option.map_map, Option.map_map]
  constructor
  · congr 1
    funext g
    cases hd : r₂.displayName <;> simp [append, hd]
  · congr 1
    funext g
    simp [append, Option.or_assoc]

/-- A user is in the group after one PATCH but not after two when the second
list removes the user and only the first one adds it. -/
theorem patched_member_append (h₁ : Patched E now₁ id r₁ s s₁) (h₂ : Patched E now₂ id r₂ s₁ s₂)
    (h₃ : Patched E now₃ id (append r₁ r₂) s s₃) (u : String) :
    (u ∈ s₂.memberIds id ↔ u ∈ s₃.memberIds id) ↔
      (.str u ∈ r₁.addMemberIds → (∃ v ∈ r₂.removeMemberIds, Selects E v u) →
        .str u ∈ r₂.addMemberIds) := by
  have hexists : (∃ v ∈ (append r₁ r₂).removeMemberIds, Selects E v u) ↔
      (∃ v ∈ r₁.removeMemberIds, Selects E v u) ∨ ∃ v ∈ r₂.removeMemberIds, Selects E v u := by
    simp [append, or_and_right, exists_or]
  have hadds : Json.str u ∈ (append r₁ r₂).addMemberIds ↔
      .str u ∈ r₁.addMemberIds ∨ .str u ∈ r₂.addMemberIds := List.mem_append
  rw [Store.mem_memberIds, Store.mem_memberIds, h₂.members, h₁.members, h₃.members, hexists, hadds]
  by_cases hadd₁ : Json.str u ∈ r₁.addMemberIds <;>
    by_cases hadd₂ : Json.str u ∈ r₂.addMemberIds <;>
    by_cases hrem₂ : ∃ v ∈ r₂.removeMemberIds, Selects E v u <;>
    simp [hadd₁, hadd₂, hrem₂]

end Composition

variable {env : Env} {ticks₁ ticks₂ ticks₃ : ℕ → Tick} {id : String}
  {ops₁ ops₂ : List (Option PatchOperation)} {s s₁ s₂ s₃ : Store} {a₁ a₂ a₃ : Answer}

/-- Two PATCH requests in a row and the one PATCH of both lists agree exactly
when every user that the first list adds and the second one removes is added
by the second one too. -/
theorem patchGroup_append_iff
    (h₁ : serve env ticks₁ (.patchGroup id ops₁) s = (.ok a₁, s₁))
    (h₂ : serve env ticks₂ (.patchGroup id ops₂) s₁ = (.ok a₂, s₂))
    (h₃ : serve env ticks₃ (.patchGroup id (ops₁ ++ ops₂)) s = (.ok a₃, s₃)) :
    SameGroup s₂ s₃ id ↔
      ∀ u, NamedInAdd ops₁ (.str u) →
        (∃ v, NamedInRemove ops₂ v ∧ Selects env.engine v u) → NamedInAdd ops₂ (.str u) := by
  obtain ⟨r₁, _, hr₁, _, hp₁, _, _⟩ := patchGroup_ok h₁
  obtain ⟨r₂, _, hr₂, _, hp₂, _, _⟩ := patchGroup_ok h₂
  obtain ⟨r, _, hr, _, hp₃, _, _⟩ := patchGroup_ok h₃
  have happ : r = append r₁ r₂ := by
    rw [applyGroupPatch_append, hr₁, hr₂] at hr
    exact (Option.some.inj hr).symm
  subst happ
  have hnames : ∀ u, (NamedInAdd ops₁ (.str u) →
      (∃ v, NamedInRemove ops₂ v ∧ Selects env.engine v u) → NamedInAdd ops₂ (.str u)) ↔
      (u ∈ s₂.memberIds id ↔ u ∈ s₃.memberIds id) := by
    intro u
    rw [patched_member_append hp₁ hp₂ hp₃ u, (applyGroupPatch_members hr₁ _).1,
      (applyGroupPatch_members hr₂ _).1]
    simp only [(applyGroupPatch_members hr₂ _).2]
  constructor
  · exact fun hsame u => (hnames u).mpr (hsame.members u)
  · intro hall
    obtain ⟨hname, hext⟩ := patched_columns_append hp₁ hp₂ hp₃
    exact ⟨hname, hext, fun u => (hnames u).mp (hall u)⟩

/-- The theorem at an addition of `u` followed by a removal of another id. -/
theorem patchGroup_append_iff_sample :
    SameGroup { sampleStore with members := [⟨"g", "u"⟩] }
        { sampleStore with members := [⟨"g", "u"⟩] } "g" ↔
      ∀ u, NamedInAdd [some (membersOperation "add" ["u"])] (.str u) →
        (∃ v, NamedInRemove [some (membersOperation "remove" ["v"])] v ∧
          Selects sampleEnv.engine v u) →
        NamedInAdd [some (membersOperation "remove" ["v"])] (.str u) := by
  have h₁ : serve sampleEnv sampleTicks (.patchGroup "g" [some (membersOperation "add" ["u"])])
      sampleStore = (.ok _, { sampleStore with members := [⟨"g", "u"⟩] }) := rfl
  have h₂ : serve sampleEnv sampleTicks
      (.patchGroup "g" [some (membersOperation "remove" ["v"])])
      { sampleStore with members := [⟨"g", "u"⟩] } =
        (.ok _, { sampleStore with members := [⟨"g", "u"⟩] }) := rfl
  have h₃ : serve sampleEnv sampleTicks
      (.patchGroup "g" ([some (membersOperation "add" ["u"])] ++
        [some (membersOperation "remove" ["v"])])) sampleStore =
        (.ok _, { sampleStore with members := [⟨"g", "u"⟩] }) := rfl
  exact patchGroup_append_iff h₁ h₂ h₃

/-- Adding `u` and then removing it leaves `u` out of the group when these are
two requests and in the group when they are one. -/
theorem addThenRemove_differs :
    ∃ a₁ s₁ a₂ s₂ a₃ s₃,
      serve sampleEnv sampleTicks (.patchGroup "g" [some (membersOperation "add" ["u"])])
        sampleStore = (.ok a₁, s₁) ∧
      serve sampleEnv sampleTicks (.patchGroup "g" [some (membersOperation "remove" ["u"])])
        s₁ = (.ok a₂, s₂) ∧
      serve sampleEnv sampleTicks (.patchGroup "g" ([some (membersOperation "add" ["u"])] ++
        [some (membersOperation "remove" ["u"])])) sampleStore = (.ok a₃, s₃) ∧
      ¬SameGroup s₂ s₃ "g" := by
  refine ⟨_, _, _, _, _, _, rfl, rfl, rfl, fun hsame => ?_⟩
  exact absurd ((hsame.members "u").mpr (by decide)) (by decide)

end OktaScim.GroupPatchOrder
