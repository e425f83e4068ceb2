import OktaScim.FilterPaths

/-!
Which paths of a removal select a member. The filter may stand anywhere in the
path, so a path that goes on behind the filter, or begins before it, removes
the member like the filter alone.
-/
namespace OktaScim.MemberPaths

open Patterns Pattern JsValues Bodies GroupPatch FilterPaths

/-- The path as a whole is the form. -/
def IsMemberPath (path id : String) : Prop := IsMemberForm path.toList id.toList

/-- Wherever the path holds the form, nothing stands before or behind it. -/
def FormIsWhole (path : String) : Prop :=
  ∀ before form id behind, path.toList = before ++ (form ++ behind) → IsMemberForm form id →
    before = [] ∧ behind = []

/-- The path is parsed exactly, and one that is not the filter as a whole removes nobody. -/
def ParsedExactly (path : String) : Prop :=
  (∀ id, extractMemberIdFromFilterPath path = some id ↔ IsMemberPath path id) ∧
    ((∀ id, ¬IsMemberPath path id) → path ≠ "members" →
      extractMemberIdFromFilterPath path = none ∧
        ∀ (result : GroupPatchResult) (operation : PatchOperation),
          operation.op.map toLowerCase = some "remove" → operation.path = some path →
          applyGroupOperation result operation = some result)

/-- A removal by a path from which no id is extracted changes nothing. -/
theorem remove_nobody {path : String} (hnone : extractMemberIdFromFilterPath path = none)
    (hmembers : path ≠ "members") (result : GroupPatchResult) {operation : PatchOperation}
    (hop : operation.op.map toLowerCase = some "remove") (hpath : operation.path = some path) :
    applyGroupOperation result operation = some result := by
  have hadd : ¬(some "remove" = some "add" ∧
      (some path = some "members" ∨ nonempty (some path) = false)) := by simp
  have hother : some path ≠ some "members" := fun heq => hmembers (Option.some.inj heq)
  simp only [applyGroupOperation, hop, hpath, if_neg hadd, if_pos, if_neg hother,
    Option.getD_some, hnone, ite_self]

/-- A path is parsed exactly when a form in it is the whole of it. -/
theorem parsedExactly_iff (path : String) : ParsedExactly path ↔ FormIsWhole path := by
  constructor
  · intro h before form id behind hpath hform
    obtain ⟨id', hid'⟩ := extract_of_form hpath hform
    have hwhole : IsMemberForm path.toList id'.toList := (h.1 id').mp hid'
    obtain ⟨hbefore, _, hbehind⟩ := form_in_form hwhole hform hpath
    exact ⟨hbefore, hbehind⟩
  · intro h
    have hsound : ∀ id, extractMemberIdFromFilterPath path = some id → IsMemberPath path id := by
      intro id hid
      obtain ⟨before, form, behind, hpath, hform⟩ := extract_form hid
      obtain ⟨rfl, rfl⟩ := h before form id.toList behind hpath hform
      rw [List.nil_append, List.append_nil] at hpath
      rwa [IsMemberPath, hpath]
    refine ⟨fun id => ⟨hsound id, extract_whole⟩, ?_⟩
    · intro hnot hmembers
      have hnone : extractMemberIdFromFilterPath path = none := by
        rw [Option.eq_none_iff_forall_ne_some]
        exact fun id hid => hnot id (hsound id hid)
      exact ⟨hnone, fun result operation => remove_nobody hnone hmembers result⟩

/-- A removal of one attribute of a member removes the member. -/
theorem sub_attribute_removes_member :
    ¬ParsedExactly "members[value eq \"u\"].display" ∧
      (applyGroupPatch [some ⟨some "remove", some "members[value eq \"u\"].display", none⟩]).map
        GroupPatchResult.removeMemberIds = some [.str "u"] := by
  constructor
  · intro h
    have hfound : extractMemberIdFromFilterPath "members[value eq \"u\"].display" = some "u" := by
      decide
    obtain ⟨m, v, e, _, _, _, _, _, hpath⟩ := (h.1 "u").mp hfound
    have hends : "members[value eq \"u\"].display".toList =
        (m ++ '[' :: (v ++ ' ' :: (e ++ ' ' :: '"' :: ("u".toList ++ ['"'])))) ++ [']'] := by
      simpa using hpath
    have hlast := congrArg List.getLast? hends
    rw [List.getLast?_concat] at hlast
    exact absurd hlast (by decide)
  · rfl

end OktaScim.MemberPaths
