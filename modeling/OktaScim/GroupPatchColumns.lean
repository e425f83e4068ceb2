import OktaScim.GroupPatchMeaning
import OktaScim.LastWrites

/-!
What group PATCH operations say about the columns of the group. As for a user,
the last value that is sent for a column is the one that is kept, after it was
turned into a string.
-/
namespace OktaScim.GroupPatchColumns

open JsValues Bodies GroupPatch GroupPatchMeaning LastWrites

inductive GroupColumn : Type
  | displayName
  | externalId
deriving DecidableEq

def GroupColumn.key : GroupColumn → String
  | .displayName => "displayName"
  | .externalId => "externalId"

def columnOf (r : GroupPatchResult) : GroupColumn → Option String
  | .displayName => r.displayName
  | .externalId => r.externalId

/-- The value that an operation sends for a column. -/
def columnSent (c : GroupColumn) (o : PatchOperation) : Option (Option Json) :=
  if o.op.map toLowerCase = some "replace" then
    if o.path = some "displayName" then
      if c = .displayName then some o.value else none
    else if nonempty o.path then none
    else
      match o.value with
      | some (.obj fields) => ((Json.obj fields).get c.key).map some
      | _ => none
  else none

/-- What the last operation that sends something for the column sends. -/
def lastColumn (c : GroupColumn) (ops : List (Option PatchOperation)) : Option (Option Json) :=
  lastWrite (fun o => o.bind (columnSent c)) ops

theorem assignString_column {value : Json} {k : String} {target new : Option String}
    (h : assignString value k target = some new) :
    new = (((value.get k).map some).map jsString).getD target := by
  unfold assignString Json.has at h
  cases hget : value.get k with
  | none =>
    rw [hget] at h
    cases h
    rfl
  | some v =>
    rw [hget] at h
    obtain ⟨t, ht, rfl⟩ := Option.map_eq_some_iff.mp h
    exact ht.symm

theorem columnSent_other {o : PatchOperation} (hop : o.op.map toLowerCase ≠ some "replace")
    (c : GroupColumn) : columnSent c o = none := by
  rw [columnSent, if_neg hop]

theorem columnSent_object {o : PatchOperation} {fields : List (String × Json)}
    (hop : o.op.map toLowerCase = some "replace") (hempty : nonempty o.path = false)
    (hv : o.value = some (.obj fields)) (c : GroupColumn) :
    columnSent c o = ((Json.obj fields).get c.key).map some := by
  have hname : o.path ≠ some "displayName" := by
    intro hp
    simp [hp, nonempty] at hempty
  simp [columnSent, hop, hname, hempty, hv]

theorem columnSent_passedOver {o : PatchOperation}
    (h : o.op.map toLowerCase = some "replace" → o.path ≠ some "displayName" ∧
      (nonempty o.path = false → ∀ fields, o.value ≠ some (.obj fields))) (c : GroupColumn) :
    columnSent c o = none := by
  by_cases hop : o.op.map toLowerCase = some "replace"
  · obtain ⟨hname, hvalue⟩ := h hop
    rw [columnSent, if_pos hop, if_neg hname]
    split
    · rfl
    · rename_i hempty
      split
      · rename_i fields hv
        rw [Bool.not_eq_true] at hempty
        exact absurd hv (hvalue hempty fields)
      · rfl
  · exact columnSent_other hop c

/-- A turn puts into each column what its operation sends. -/
theorem applyGroupOperation_column {r r' : GroupPatchResult} {o : PatchOperation}
    (h : applyGroupOperation r o = some r') (c : GroupColumn) :
    columnOf r' c = ((columnSent c o).map jsString).getD (columnOf r c) := by
  have hturn := applyGroupOperation_turn r o
  rw [h] at hturn
  cases hturn with
  | addList op path result =>
    obtain ⟨items, _, rfl⟩ := Option.map_eq_some_iff.mp result
    rw [columnSent_other (by simp [op])]
    cases c <;> rfl
  | removeList op path result =>
    obtain ⟨items, _, rfl⟩ := Option.map_eq_some_iff.mp result
    rw [columnSent_other (by simp [op])]
    cases c <;> rfl
  | removeOne op path other filled selects filledId result =>
    cases result
    rw [columnSent_other (by simp [op])]
    cases c <;> rfl
  | rename op path result =>
    obtain ⟨t, ht, rfl⟩ := Option.map_eq_some_iff.mp result
    rw [columnSent, if_pos op, if_pos path]
    cases c with
    | displayName => exact ht.symm
    | externalId => rfl
  | assign op path value result =>
    obtain ⟨displayName, hname, hrest⟩ := Option.bind_eq_some_iff.mp result
    obtain ⟨externalId, hexternal, hresult⟩ := Option.bind_eq_some_iff.mp hrest
    cases hresult
    rw [columnSent_object op path value]
    cases c with
    | displayName => exact assignString_column hname
    | externalId => exact assignString_column hexternal
  | passOver add remove replace result =>
    cases result
    rw [columnSent_passedOver replace]
    rfl

theorem applyGroupOperations_eq (r : GroupPatchResult) (ops : List (Option PatchOperation)) :
    applyGroupOperations r ops = ops.foldlM (fun r o => o.bind (applyGroupOperation r)) r :=
  eq_foldlM_of_cons applyGroupOperations (fun _ => rfl) (fun _ _ => rfl) (fun _ _ _ => rfl) r ops

/-- Every column of the result is what was last sent for it, as a string. -/
theorem applyGroupPatch_column {ops : List (Option PatchOperation)} {r : GroupPatchResult}
    (h : applyGroupPatch ops = some r) (c : GroupColumn) :
    columnOf r c = (lastColumn c ops).bind jsString := by
  rw [applyGroupPatch, applyGroupOperations_eq] at h
  have hview := foldlM_view (fun r => columnOf r c) (fun o => o.bind (columnSent c)) jsString
    (fun r o r' hr => ?_) h
  · have hinitial : columnOf .initial c = none := by
      cases c <;> rfl
    rw [hview, hinitial, lastColumn]
    cases lastWrite (fun o => o.bind (columnSent c)) ops <;> rfl
  · cases o with
    | none => contradiction
    | some o => exact applyGroupOperation_column hr c

end OktaScim.GroupPatchColumns
