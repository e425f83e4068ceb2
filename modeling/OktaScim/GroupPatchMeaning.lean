import OktaScim.GroupPatch

/-!
What a list of group PATCH operations names. What one operation can do is said
once, as the turns of the loop. Translation results form a monoid and the
translation is a homomorphism from lists of operations into it; the members it
collects are described on the operations themselves.
-/
namespace OktaScim.GroupPatchMeaning

open JsValues Bodies GroupPatch

section Turns

/-- A turn of the loop with the operation `o`, from `r` to `x`: a case for each
kind of operation that is carried out, and one for all that are passed over. -/
inductive Turn (r : GroupPatchResult) (o : PatchOperation) (x : Option GroupPatchResult) : Prop
  | addList (op : o.op.map toLowerCase = some "add")
      (path : o.path = some "members" ∨ nonempty o.path = false)
      (result : (iterate o.value).map (fun members =>
        { r with addMemberIds := r.addMemberIds ++ memberValues members }) = x)
  | removeList (op : o.op.map toLowerCase = some "remove") (path : o.path = some "members")
      (result : (iterate o.value).map (fun members =>
        { r with removeMemberIds := r.removeMemberIds ++ memberValues members }) = x)
  | removeOne {p id : String} (op : o.op.map toLowerCase = some "remove") (path : o.path = some p)
      (other : p ≠ "members") (filled : p ≠ "")
      (selects : extractMemberIdFromFilterPath p = some id) (filledId : id ≠ "")
      (result : some { r with removeMemberIds := r.removeMemberIds ++ [.str id] } = x)
  | rename (op : o.op.map toLowerCase = some "replace") (path : o.path = some "displayName")
      (result : (jsString o.value).map (fun s => { r with displayName := some s }) = x)
  | assign {fields : List (String × Json)} (op : o.op.map toLowerCase = some "replace")
      (path : nonempty o.path = false) (value : o.value = some (.obj fields))
      (result : ((assignString (.obj fields) "displayName" r.displayName).bind fun displayName =>
        (assignString (.obj fields) "externalId" r.externalId).bind fun externalId =>
          some { r with displayName := displayName, externalId := externalId }) = x)
  | passOver
      (add : ¬(o.op.map toLowerCase = some "add" ∧
        (o.path = some "members" ∨ nonempty o.path = false)))
      (remove : o.op.map toLowerCase = some "remove" → o.path ≠ some "members" ∧
        ∀ p id, o.path = some p → p ≠ "" → extractMemberIdFromFilterPath p = some id → id = "")
      (replace : o.op.map toLowerCase = some "replace" → o.path ≠ some "displayName" ∧
        (nonempty o.path = false → ∀ fields, o.value ≠ some (.obj fields)))
      (result : some r = x)

theorem nonempty_eq_true_iff {path : Option String} :
    nonempty path = true ↔ ∃ p, path = some p ∧ p ≠ "" := by
  cases path <;> simp [nonempty]

theorem not_addList {o : PatchOperation} {op : String} (hop : o.op.map toLowerCase = some op)
    (hne : op ≠ "add") : ¬(o.op.map toLowerCase = some "add" ∧
      (o.path = some "members" ∨ nonempty o.path = false)) := by
  rw [hop]
  exact fun h => hne (Option.some.inj h.1)

theorem remove_turn {r : GroupPatchResult} {o : PatchOperation}
    (hop : o.op.map toLowerCase = some "remove") : Turn r o (applyGroupOperation r o) := by
  have hnotAdd := not_addList hop (by decide)
  have hnotReplace : o.op.map toLowerCase ≠ some "replace" := by
    simp [hop]
  unfold applyGroupOperation
  dsimp only
  rw [if_neg hnotAdd, if_pos hop]
  split
  · rename_i hpath
    exact .removeList hop hpath rfl
  rename_i hpath
  split
  · rename_i hfilled
    obtain ⟨p, hp, hne⟩ := nonempty_eq_true_iff.mp hfilled
    have hmembers : p ≠ "members" := fun heq => hpath (heq ▸ hp)
    simp only [hp, Option.getD_some]
    cases hextract : extractMemberIdFromFilterPath p with
    | none =>
      refine .passOver hnotAdd (fun _ => ⟨hpath, ?_⟩) (fun h => absurd h hnotReplace) rfl
      intro p' id hp' _ hid
      rw [← Option.some.inj (hp.symm.trans hp'), hextract] at hid
      contradiction
    | some id =>
      dsimp only
      split
      · rename_i hid
        exact .removeOne hop hp hmembers hne hextract hid rfl
      · rename_i hid
        refine .passOver hnotAdd (fun _ => ⟨hpath, ?_⟩) (fun h => absurd h hnotReplace) rfl
        intro p' id' hp' _ hid'
        rw [← Option.some.inj (hp.symm.trans hp'), hextract] at hid'
        rw [← Option.some.inj hid']
        exact not_not.mp hid
  · rename_i hempty
    refine .passOver hnotAdd (fun _ => ⟨hpath, ?_⟩) (fun h => absurd h hnotReplace) rfl
    intro p id hp hne _
    exact absurd (nonempty_eq_true_iff.mpr ⟨p, hp, hne⟩) hempty

theorem replace_turn {r : GroupPatchResult} {o : PatchOperation}
    (hop : o.op.map toLowerCase = some "replace") : Turn r o (applyGroupOperation r o) := by
  have hnotAdd := not_addList hop (by decide)
  have hnotRemove : o.op.map toLowerCase ≠ some "remove" := by
    simp [hop]
  unfold applyGroupOperation
  dsimp only
  rw [if_neg hnotAdd, if_neg hnotRemove, if_pos hop]
  split
  · rename_i hpath
    exact .rename hop hpath rfl
  rename_i hpath
  have hpassed : (nonempty o.path = false → ∀ fields, o.value ≠ some (.obj fields)) →
      Turn r o (some r) := fun hvalue =>
    .passOver hnotAdd (fun h => absurd h hnotRemove) (fun _ => ⟨hpath, hvalue⟩) rfl
  split
  · rename_i fields hvalue
    split
    · rename_i hfilled
      exact hpassed fun hempty => by rw [hfilled] at hempty; contradiction
    · rename_i hempty
      rw [Bool.not_eq_true] at hempty
      exact .assign hop hempty hvalue rfl
  · rename_i hvalue
    exact hpassed fun _ => hvalue

/-- Every operation makes one of these turns. -/
theorem applyGroupOperation_turn (r : GroupPatchResult) (o : PatchOperation) :
    Turn r o (applyGroupOperation r o) := by
  by_cases hremove : o.op.map toLowerCase = some "remove"
  · exact remove_turn hremove
  by_cases hreplace : o.op.map toLowerCase = some "replace"
  · exact replace_turn hreplace
  unfold applyGroupOperation
  dsimp only
  by_cases hadd : o.op.map toLowerCase = some "add" ∧
      (o.path = some "members" ∨ nonempty o.path = false)
  · rw [if_pos hadd]
    exact .addList hadd.1 hadd.2 rfl
  · rw [if_neg hadd, if_neg hremove, if_neg hreplace]
    exact .passOver hadd (fun h => absurd h hremove) (fun h => absurd h hreplace) rfl

end Turns

section Composition

/-- The result of going through `b` after `a`. -/
def append (a b : GroupPatchResult) : GroupPatchResult where
  displayName := b.displayName.or a.displayName
  externalId := b.externalId.or a.externalId
  addMemberIds := a.addMemberIds ++ b.addMemberIds
  removeMemberIds := a.removeMemberIds ++ b.removeMemberIds

@[simp] theorem append_initial (a : GroupPatchResult) : append a .initial = a := by
  simp [append, GroupPatchResult.initial]

@[simp] theorem initial_append (a : GroupPatchResult) : append .initial a = a := by
  simp [append, GroupPatchResult.initial]

theorem append_assoc (a b c : GroupPatchResult) :
    append (append a b) c = append a (append b c) := by
  simp [append, Option.or_assoc]

theorem applyGroupOperation_append (r : GroupPatchResult) (o : PatchOperation) :
    applyGroupOperation r o = (applyGroupOperation .initial o).map (append r) := by
  unfold applyGroupOperation
  dsimp only
  split
  · cases iterate o.value <;> simp [append, GroupPatchResult.initial]
  split
  · split
    · cases iterate o.value <;> simp [append, GroupPatchResult.initial]
    split
    · cases extractMemberIdFromFilterPath (o.path.getD "") with
      | none => simp
      | some id =>
        dsimp only
        split
        · simp [append, GroupPatchResult.initial]
        · simp
    · simp
  split
  · split
    · cases jsString o.value <;> simp [append, GroupPatchResult.initial]
    · cases o.value with
      | none => simp
      | some v =>
        cases v with
        | obj fields =>
          dsimp only
          split
          · simp
          · rw [assignString_eq _ _ r.displayName, assignString_eq _ _ r.externalId]
            simp only [GroupPatchResult.initial]
            cases assignString (.obj fields) "displayName" none <;>
              cases assignString (.obj fields) "externalId" none <;> simp [append]
        | _ => simp
  · simp

theorem applyGroupOperations_append (r : GroupPatchResult) (ops : List (Option PatchOperation)) :
    applyGroupOperations r ops = (applyGroupPatch ops).map (append r) := by
  unfold applyGroupPatch
  induction ops generalizing r with
  | nil => simp [applyGroupOperations]
  | cons o ops ih =>
    cases o with
    | none => simp [applyGroupOperations]
    | some o =>
      simp only [applyGroupOperations]
      rw [applyGroupOperation_append r o]
      cases applyGroupOperation .initial o with
      | none => rfl
      | some r' =>
        simp only [Option.map_some, Option.bind_some]
        rw [ih (append r r'), ih r', Option.map_map]
        congr 1
        funext r''
        exact append_assoc r r' r''

/-- Translating one list after another composes their results. -/
theorem applyGroupPatch_append (ops₁ ops₂ : List (Option PatchOperation)) :
    applyGroupPatch (ops₁ ++ ops₂) =
      (applyGroupPatch ops₁).bind fun r => (applyGroupPatch ops₂).map (append r) := by
  induction ops₁ with
  | nil =>
    have hid : append GroupPatchResult.initial = id := funext initial_append
    have hnil : applyGroupPatch [] = some .initial := rfl
    simp [hnil, hid]
  | cons o ops ih =>
    cases o with
    | none => rfl
    | some o =>
      simp only [applyGroupPatch, applyGroupOperations, List.cons_append]
      cases applyGroupOperation .initial o with
      | none => rfl
      | some r =>
        simp only [Option.bind_some]
        rw [applyGroupOperations_append, applyGroupOperations_append r ops, ih]
        cases applyGroupPatch ops with
        | none => rfl
        | some r' =>
          simp only [Option.bind_some, Option.map_some, Option.map_map]
          congr 1
          funext r''
          exact (append_assoc r r' r'').symm

theorem applyGroupPatch_cons (o : PatchOperation) (ops : List (Option PatchOperation)) :
    applyGroupPatch (some o :: ops) =
      (applyGroupOperation .initial o).bind fun r => (applyGroupPatch ops).map (append r) := by
  change (applyGroupOperation .initial o).bind _ = _
  congr 1
  funext r
  exact applyGroupOperations_append r ops

end Composition

section Names

/-- `v` is the truthy `value` of an entry of the operation's list. -/
def ListsValue (o : PatchOperation) (v : Json) : Prop :=
  ∃ items, o.value = some (.arr items) ∧
    ∃ member ∈ items, member.get "value" = some v ∧ v.truthy = true

/-- An add operation, with path `members` or none, that lists `v`. -/
def AddsMember (o : PatchOperation) (v : Json) : Prop :=
  o.op.map toLowerCase = some "add" ∧ (o.path = some "members" ∨ nonempty o.path = false) ∧
    ListsValue o v

/-- A remove operation with path `members` that lists `v`, or one whose path
selects the member id `v`. -/
def RemovesMember (o : PatchOperation) (v : Json) : Prop :=
  o.op.map toLowerCase = some "remove" ∧
    ((o.path = some "members" ∧ ListsValue o v) ∨
      ∃ p id, o.path = some p ∧ p ≠ "members" ∧ p ≠ "" ∧ id ≠ "" ∧
        extractMemberIdFromFilterPath p = some id ∧ v = .str id)

theorem mem_memberValues {items : List Json} {v : Json} :
    v ∈ memberValues items ↔
      ∃ member ∈ items, member.get "value" = some v ∧ v.truthy = true := by
  simp [memberValues, Option.filter_eq_some_iff]

theorem memberValues_chars (f : Char → String) (cs : List Char) :
    memberValues (cs.map (fun c => Json.str (f c))) = [] := by
  simp [memberValues, Json.get]

/-- What an iteration collects are the values its list holds. -/
theorem mem_iterated {o : PatchOperation} {items : List Json}
    (h : iterate o.value = some items) (v : Json) :
    v ∈ memberValues items ↔ ListsValue o v := by
  unfold ListsValue
  cases hval : o.value with
  | none =>
    rw [hval] at h
    cases h
    simp [memberValues]
  | some w =>
    rw [hval] at h
    cases w with
    | null =>
      cases h
      simp [memberValues]
    | str s =>
      cases h
      simp [memberValues_chars]
    | arr xs =>
      cases h
      simp [mem_memberValues]
    | bool b => simp [iterate] at h
    | num n => simp [iterate] at h
    | obj fields => simp [iterate] at h

/-- One operation collects exactly the values it names. -/
theorem applyGroupOperation_members {o : PatchOperation} {r : GroupPatchResult}
    (h : applyGroupOperation .initial o = some r) (v : Json) :
    (v ∈ r.addMemberIds ↔ AddsMember o v) ∧ (v ∈ r.removeMemberIds ↔ RemovesMember o v) := by
  have hturn := applyGroupOperation_turn .initial o
  rw [h] at hturn
  cases hturn with
  | addList op path result =>
    obtain ⟨items, hitems, rfl⟩ := Option.map_eq_some_iff.mp result
    simp [AddsMember, RemovesMember, GroupPatchResult.initial, op, path, mem_iterated hitems v]
  | removeList op path result =>
    obtain ⟨items, hitems, rfl⟩ := Option.map_eq_some_iff.mp result
    simp [AddsMember, RemovesMember, GroupPatchResult.initial, op, path, mem_iterated hitems v]
  | removeOne op path other filled selects filledId result =>
    cases result
    simp [AddsMember, RemovesMember, GroupPatchResult.initial, op, path, other, filled, selects,
      filledId]
  | rename op path result =>
    obtain ⟨s, _, rfl⟩ := Option.map_eq_some_iff.mp result
    simp [AddsMember, RemovesMember, GroupPatchResult.initial, op]
  | assign op path value result =>
    obtain ⟨displayName, _, hrest⟩ := Option.bind_eq_some_iff.mp result
    obtain ⟨externalId, _, hresult⟩ := Option.bind_eq_some_iff.mp hrest
    cases hresult
    simp [AddsMember, RemovesMember, GroupPatchResult.initial, op]
  | passOver add remove replace result =>
    cases result
    simp only [GroupPatchResult.initial, List.not_mem_nil, false_iff]
    refine ⟨fun hadds => add ⟨hadds.1, hadds.2.1⟩, ?_⟩
    rintro ⟨hop, ⟨hpath, _⟩ | ⟨p, id, hp, _, hne, hid, hextract, _⟩⟩
    · exact (remove hop).1 hpath
    · exact hid ((remove hop).2 p id hp hne hextract)

/-- Some operation of the list adds `v`. -/
def NamedInAdd (ops : List (Option PatchOperation)) (v : Json) : Prop :=
  ∃ o, some o ∈ ops ∧ AddsMember o v

/-- Some operation of the list removes `v`. -/
def NamedInRemove (ops : List (Option PatchOperation)) (v : Json) : Prop :=
  ∃ o, some o ∈ ops ∧ RemovesMember o v

/-- The translation collects exactly the values the operations name. -/
theorem applyGroupPatch_members {ops : List (Option PatchOperation)} {r : GroupPatchResult}
    (h : applyGroupPatch ops = some r) (v : Json) :
    (v ∈ r.addMemberIds ↔ NamedInAdd ops v) ∧ (v ∈ r.removeMemberIds ↔ NamedInRemove ops v) := by
  induction ops generalizing r with
  | nil =>
    cases h
    simp [GroupPatchResult.initial, NamedInAdd, NamedInRemove]
  | cons o ops ih =>
    cases o with
    | none => contradiction
    | some o =>
      rw [applyGroupPatch_cons] at h
      obtain ⟨r₁, h₁, h₂⟩ := Option.bind_eq_some_iff.mp h
      obtain ⟨r₂, hrest, rfl⟩ := Option.map_eq_some_iff.mp h₂
      obtain ⟨hadd₁, hrem₁⟩ := applyGroupOperation_members h₁ v
      obtain ⟨hadd₂, hrem₂⟩ := ih hrest
      simp only [append, List.mem_append, hadd₁, hadd₂, hrem₁, hrem₂]
      simp [NamedInAdd, NamedInRemove]

end Names

end OktaScim.GroupPatchMeaning
