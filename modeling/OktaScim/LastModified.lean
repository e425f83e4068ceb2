import OktaScim.GroupPatchFrame
import OktaScim.PatchTranslation
import OktaScim.MembershipRefinement

/-!
The time of a group's last change. It is a column of the group's row, written
when the row is: by every PUT, and by a PATCH that sends a column. A PATCH that
only adds or removes members writes to the membership table and leaves it.
-/
namespace OktaScim.LastModified

open Programs Schema KeyedRows JsValues PrismaClient PrismaConstraints Bodies GroupPatch
open Requests GroupPatchMeaning GroupPatchEffect GroupPatchFrame GroupPatchColumns GroupUpdates
open PatchTranslation MembershipRefinement LastWrites

section Changes

/-- What a client sees of the group is another than before. -/
def Changed (id : String) (s s' : Store) (g g' : ScimGroup) : Prop :=
  g'.displayName ≠ g.displayName ∨ g'.externalId ≠ g.externalId ∨
    memberSet s' id ≠ memberSet s id

/-- If the group has changed, then so has the time of its last change. -/
def MovesLastModified (id : String) (s s' : Store) : Prop :=
  ∀ g g', s.group id = some g → s'.group id = some g' → Changed id s s' g g' →
    g.updatedAt < g'.updatedAt

/-- Some operation sends a column of the group. -/
def SendsColumn (ops : List (Option PatchOperation)) : Prop :=
  ∃ o c, some o ∈ ops ∧ columnSent c o ≠ none

/-- Who is named for addition is a member, and who is selected for removal is
named for addition. -/
structure KeepsMembers (E : Engine) (id : String) (ops : List (Option PatchOperation)) (s : Store) :
    Prop where
  added : ∀ u, NamedInAdd ops (.str u) → u ∈ memberSet s id
  removed : ∀ u ∈ memberSet s id, ∀ v, NamedInRemove ops v → Selects E v u →
    NamedInAdd ops (.str u)

/-- A clock that runs, and has not run behind the last change of the group. -/
structure Clock (ticks : ℕ → Tick) (id : String) (s : Store) : Prop where
  increasing : StrictMono fun n => (ticks n).now
  passed : ∀ g, s.group id = some g → g.updatedAt ≤ (ticks 0).now

end Changes

section Patches

variable {E : Engine} {now : ℕ} {id : String} {ops : List (Option PatchOperation)}
  {r : GroupPatchResult} {s s' : Store}

/-- The translation has a column exactly where an operation sends it. -/
theorem columnOf_isSome_iff (hr : applyGroupPatch ops = some r) (c : GroupColumn) :
    (columnOf r c).isSome = true ↔ ∃ o, some o ∈ ops ∧ columnSent c o ≠ none := by
  rw [applyGroupPatch_column hr c]
  cases hlast : lastColumn c ops with
  | none =>
    refine iff_of_false (by simp) ?_
    rintro ⟨o, ho, hsent⟩
    exact hsent (lastWrite_eq_none_iff.mp hlast (some o) ho)
  | some v =>
    obtain ⟨o, ho, hsent⟩ := mem_of_lastWrite hlast
    obtain ⟨p, rfl, _⟩ := (applyGroupPatch_isSome ops).mp (by rw [hr]; rfl) o ho
    refine iff_of_true (hasText_of_lastColumn hr hlast) ⟨p, ho, ?_⟩
    rw [show columnSent c p = some v from hsent]
    exact Option.some_ne_none v

theorem sendsColumn_iff (hr : applyGroupPatch ops = some r) :
    r.displayName.isSome = true ∨ r.externalId.isSome = true ↔ SendsColumn ops := by
  have hname := columnOf_isSome_iff hr .displayName
  have hexternal := columnOf_isSome_iff hr .externalId
  constructor
  · rintro (h | h)
    · obtain ⟨o, ho, hsent⟩ := hname.mp h
      exact ⟨o, .displayName, ho, hsent⟩
    · obtain ⟨o, ho, hsent⟩ := hexternal.mp h
      exact ⟨o, .externalId, ho, hsent⟩
  · rintro ⟨o, c, ho, hsent⟩
    cases c with
    | displayName => exact Or.inl (hname.mpr ⟨o, ho, hsent⟩)
    | externalId => exact Or.inr (hexternal.mpr ⟨o, ho, hsent⟩)

theorem memberSet_eq_iff (hr : applyGroupPatch ops = some r) (h : Patched E now id r s s') :
    memberSet s' id = memberSet s id ↔ KeepsMembers E id ops s := by
  have hmem : ∀ u, u ∈ memberSet s' id ↔
      (u ∈ memberSet s id ∧ ¬∃ v, NamedInRemove ops v ∧ Selects E v u) ∨
        NamedInAdd ops (.str u) := by
    intro u
    simpa [memberSet] using patched_members hr h ⟨id, u⟩
  constructor
  · intro hsame
    refine ⟨fun u hadd => ?_, fun u hu v hv hsel => ?_⟩
    · rw [← hsame, hmem u]
      exact Or.inr hadd
    · rw [← hsame] at hu
      rcases (hmem u).mp hu with ⟨_, hnot⟩ | hadd
      · exact absurd ⟨v, hv, hsel⟩ hnot
      · exact hadd
  · intro hkeeps
    ext u
    rw [hmem u]
    constructor
    · rintro (⟨hu, _⟩ | hadd)
      · exact hu
      · exact hkeeps.added u hadd
    · intro hu
      by_cases hremoved : ∃ v, NamedInRemove ops v ∧ Selects E v u
      · obtain ⟨v, hv, hsel⟩ := hremoved
        exact Or.inr (hkeeps.removed u hu v hv hsel)
      · exact Or.inl ⟨hu, hremoved⟩

/-- The row of the group after the batch of a PATCH. -/
theorem patched_row (hr : applyGroupPatch ops = some r) (h : Patched E now id r s s') :
    (SendsColumn ops → ∀ g', s'.group id = some g' → g'.updatedAt = now) ∧
      (¬SendsColumn ops → s'.group id = s.group id) := by
  rw [← sendsColumn_iff hr]
  unfold Store.group
  rw [h.groups]
  constructor
  · intro hsends g' hg'
    rw [if_pos hsends, findRow_modifyRow id id (updateGroup now _ _) (fun _ => rfl), if_pos rfl]
      at hg'
    obtain ⟨g, _, rfl⟩ := Option.map_eq_some_iff.mp hg'
    rfl
  · intro hkept
    rw [if_neg hkept]

end Patches

section Requests

variable {env : Env} {ticks : ℕ → Tick} {id : String} {s s' : Store} {a : Answer}

theorem Clock.later (h : Clock ticks id s) {g : ScimGroup} (hg : s.group id = some g) :
    g.updatedAt < (ticks 1).now :=
  lt_of_le_of_lt (h.passed g hg) (h.increasing Nat.zero_lt_one)

theorem put_moves (hclock : Clock ticks id s) {dto : UpdateScimGroupDto}
    (h : serve env ticks (.replaceGroup id dto) s = (.ok a, s')) : MovesLastModified id s s' := by
  obtain ⟨members, userIds, g₀, _, _, _, hreplaced, _⟩ := replaceGroup_ok h
  intro g g' hg hg' _
  rw [hreplaced.group id, if_pos rfl, hg] at hg'
  cases hg'
  exact hclock.later hg

theorem patch_moves_iff (hclock : Clock ticks id s) {ops : List (Option PatchOperation)}
    (h : serve env ticks (.patchGroup id ops) s = (.ok a, s')) :
    MovesLastModified id s s' ↔ SendsColumn ops ∨ KeepsMembers env.engine id ops s := by
  obtain ⟨r, g', hr, hid, hpatched, hg', _⟩ := patchGroup_ok h
  obtain ⟨g, hg⟩ := Option.isSome_iff_exists.mp hid
  obtain ⟨hsends, hkept⟩ := patched_row hr hpatched
  by_cases hcolumn : SendsColumn ops
  · refine iff_of_true ?_ (Or.inl hcolumn)
    intro g₁ g₂ hg₁ hg₂ _
    rw [hsends hcolumn g₂ hg₂]
    exact hclock.later hg₁
  · have hrow := hkept hcolumn
    rw [← memberSet_eq_iff hr hpatched]
    have hgg : g' = g := Option.some.inj (hg'.symm.trans (hrow.trans hg))
    subst hgg
    constructor
    · intro hmoves
      refine Or.inr (by_contra fun hchanged => ?_)
      exact lt_irrefl _ (hmoves g' g' hg hg' (Or.inr (Or.inr hchanged)))
    · intro hsame g₁ g₂ hg₁ hg₂ hchanged
      have hrows : g₂ = g₁ := Option.some.inj (hg₂.symm.trans (hrow.trans hg₁))
      subst hrows
      rcases hchanged with hname | hexternal | hmembers
      · exact absurd rfl hname
      · exact absurd rfl hexternal
      · exact absurd (hsame.resolve_left hcolumn) hmembers

end Requests

/-- A PUT that succeeds always moves the time of a group that it changes, and a
PATCH does so exactly when it sends a column or keeps the members. -/
theorem lastModified_iff {env : Env} {ticks : ℕ → Tick} {id : String} {s : Store}
    (hclock : Clock ticks id s) :
    (∀ dto s' a, serve env ticks (.replaceGroup id dto) s = (.ok a, s') →
      MovesLastModified id s s') ∧
    ∀ ops s' a, serve env ticks (.patchGroup id ops) s = (.ok a, s') →
      (MovesLastModified id s s' ↔ SendsColumn ops ∨ KeepsMembers env.engine id ops s) :=
  ⟨fun _ _ _ h => put_moves hclock h, fun _ _ _ h => patch_moves_iff hclock h⟩

theorem sampleClock : Clock sampleTicks "g" sampleStore where
  increasing := fun _ _ h => h
  passed g hg := by
    cases hg
    exact Nat.le_refl 0

/-- The theorem at a PUT that renames the group and at a PATCH that does. -/
theorem lastModified_iff_rename :
    MovesLastModified "g" sampleStore { sampleStore with groups := [⟨"g", none, "crew", 0, 1⟩] } ∧
      (MovesLastModified "g" sampleStore
          { sampleStore with groups := [⟨"g", none, "crew", 0, 1⟩] } ↔
        SendsColumn [some ⟨some "replace", some "displayName", some (.str "crew")⟩] ∨
          KeepsMembers sampleEnv.engine "g"
            [some ⟨some "replace", some "displayName", some (.str "crew")⟩] sampleStore) := by
  have hput : serve sampleEnv sampleTicks (.replaceGroup "g" ⟨"crew", .undefined, .undefined⟩)
      sampleStore =
      (.ok _, { sampleStore with groups := [⟨"g", none, "crew", 0, 1⟩] }) := rfl
  have hpatch : serve sampleEnv sampleTicks
      (.patchGroup "g" [some ⟨some "replace", some "displayName", some (.str "crew")⟩])
      sampleStore =
      (.ok _, { sampleStore with groups := [⟨"g", none, "crew", 0, 1⟩] }) := rfl
  exact ⟨(lastModified_iff sampleClock).1 _ _ _ hput, (lastModified_iff sampleClock).2 _ _ _ hpatch⟩

/-- An addition of a member does not move the time. -/
theorem added_member_unmoved :
    (serve sampleEnv sampleTicks (.patchGroup "g" [some (membersOperation "add" ["u"])])
        sampleStore).2 = { sampleStore with members := [⟨"g", "u"⟩] } ∧
      ¬MovesLastModified "g" sampleStore { sampleStore with members := [⟨"g", "u"⟩] } := by
  refine ⟨by decide +kernel, fun hmoves => ?_⟩
  refine absurd (hmoves (sampleGroup "g" "staff") (sampleGroup "g" "staff") rfl rfl
    (Or.inr (Or.inr fun hsame => ?_))) (lt_irrefl _)
  have hmem : "u" ∈ memberSet sampleStore "g" := hsame ▸ by simp [memberSet]
  simp [memberSet, sampleStore] at hmem

end OktaScim.LastModified
