import OktaScim.GroupPatchFrame
import OktaScim.MembershipRefinement
import OktaScim.PatchTranslation

/-!
What one operation of a group PATCH asks for, and which of these changes a PATCH
that succeeds has made. The translation goes past an operation that it does not
know, and the request is then answered as if it had been carried out.
-/
namespace OktaScim.PatchPostconditions

open Programs Schema JsValues PrismaClient Bodies Requests FilterPaths GroupPatch GroupPatchMeaning
open GroupPatchEffect GroupPatchFrame GroupPatchColumns PatchTranslation
open MembershipModel MembershipRefinement

section Changes

/-- What an operation asks for, on the attributes that are stored for a group. -/
inductive Change : Type
  | addMembers (users : Set String)
  | removeMembers (users : Set String)
  | removeAllMembers
  | removeMember (user : String)
  | replaceMembers (users : Set String)
  | setColumn (c : GroupColumn) (text : String)
  | removeExternalId

def storedColumn (g : ScimGroup) : GroupColumn → Option String
  | .displayName => some g.displayName
  | .externalId => g.externalId

/-- The change is in effect for the group `id`. -/
def InEffect (id : String) (s : Store) : Change → Prop
  | .addMembers users => users ⊆ memberSet s id
  | .removeMembers users => ∀ u ∈ users, u ∉ memberSet s id
  | .removeAllMembers => memberSet s id = ∅
  | .removeMember user => user ∉ memberSet s id
  | .replaceMembers users => memberSet s id = users
  | .setColumn c text => ∃ g, s.group id = some g ∧ storedColumn g c = some text
  | .removeExternalId => ∀ g, s.group id = some g → g.externalId = none

/-- The operation sends a value for an attribute, by its path or in an object. -/
def Sends (o : PatchOperation) (k : String) (v : Json) : Prop :=
  (o.path = some k ∧ o.value = some v) ∨
    (nonempty o.path = false ∧ ∃ fields, o.value = some (.obj fields) ∧
      (Json.obj fields).get k = some v)

/-- The ids that a JSON list has in its entries. -/
def idsOf (items : List Json) : Set String := {u | ListsMember (some (.arr items)) u}

/-- The operation asks for a change. -/
inductive AsksFor (o : PatchOperation) : Change → Prop
  | addMembers {items : List Json} (op : o.op.map toLowerCase = some "add")
      (sends : Sends o "members" (.arr items)) : AsksFor o (.addMembers (idsOf items))
  | removeMembers {items : List Json} (op : o.op.map toLowerCase = some "remove")
      (sends : Sends o "members" (.arr items)) : AsksFor o (.removeMembers (idsOf items))
  | removeAllMembers (op : o.op.map toLowerCase = some "remove")
      (noValue : (o.path = some "members" ∧ o.value = none) ∨ Sends o "members" .null) :
      AsksFor o .removeAllMembers
  | removeMember {user : String} (op : o.op.map toLowerCase = some "remove")
      (path : o.path = some (memberPath user)) : AsksFor o (.removeMember user)
  | replaceMembers {items : List Json} (op : o.op.map toLowerCase = some "replace")
      (sends : Sends o "members" (.arr items)) : AsksFor o (.replaceMembers (idsOf items))
  | setColumn {c : GroupColumn} {text : String}
      (op : o.op.map toLowerCase = some "add" ∨ o.op.map toLowerCase = some "replace")
      (sends : Sends o c.key (.str text)) : AsksFor o (.setColumn c text)
  | removeExternalId (op : o.op.map toLowerCase = some "remove")
      (names : o.path = some "externalId" ∨ ∃ v, Sends o "externalId" v) :
      AsksFor o .removeExternalId

/-- The changes that the server makes: additions and removals of a list at the
path `members`, in which it goes past an empty id, removals by a filter with an
id, and replacements of the display name or of columns in an object. -/
def Supported (E : Engine) (id : String) (o : PatchOperation) (s : Store) : Change → Prop
  | .addMembers users => o.path = some "members" ∧ ("" ∈ users → "" ∈ memberSet s id)
  | .removeMembers users => o.path = some "members" ∧
      ("" ∈ users → "" ∈ memberSet s id → ∃ v, ListsValue o v ∧ Selects E v "")
  | .removeMember user => user ≠ "" ∧ '"' ∉ user.toList
  | .setColumn c _ =>
      o.op.map toLowerCase = some "replace" ∧ (c = .displayName ∨ nonempty o.path = false)
  | _ => False

end Changes

section Effects

variable {E : Engine} {now : ℕ} {id : String} {r : GroupPatchResult} {o : PatchOperation}
  {s s' : Store}

theorem memberSet_patched (hr : applyGroupPatch [some o] = some r) (h : Patched E now id r s s')
    (u : String) :
    u ∈ memberSet s' id ↔
      (u ∈ memberSet s id ∧ ¬∃ v, RemovesMember o v ∧ Selects E v u) ∨ AddsMember o (.str u) := by
  have hone := patched_members hr h ⟨id, u⟩
  simpa [memberSet, NamedInRemove, NamedInAdd] using hone

theorem memberSet_kept (hr : applyGroupPatch [some o] = some r) (h : Patched E now id r s s')
    (hremove : ∀ v, ¬RemovesMember o v) (hadd : ∀ v, ¬AddsMember o v) :
    memberSet s' id = memberSet s id := by
  ext u
  simp [memberSet_patched hr h, hremove, hadd]

theorem storedColumn_patched (hr : applyGroupPatch [some o] = some r)
    (h : Patched E now id r s s') (c : GroupColumn) :
    (s'.group id).map (fun g => storedColumn g c) =
      (s.group id).map fun g => ((columnSent c o).bind jsString).or (storedColumn g c) := by
  have hlast : lastColumn c [some o] = columnSent c o := by
    simp [lastColumn, LastWrites.lastWrite_cons]
  have hcolumn := applyGroupPatch_column hr c
  rw [hlast] at hcolumn
  rw [← hcolumn]
  cases c with
  | displayName =>
    have hname := congrArg (Option.map some) h.columns.1
    rw [Option.map_map, Option.map_map] at hname
    refine hname.trans (congrArg (fun f => (s.group id).map f) (funext fun g => ?_))
    simp only [columnOf, storedColumn, Function.comp_apply]
    cases r.displayName <;> rfl
  | externalId => exact h.columns.2

theorem column_kept (hr : applyGroupPatch [some o] = some r) (h : Patched E now id r s s')
    {c : GroupColumn} (hsent : columnSent c o = none) :
    (s'.group id).map (fun g => storedColumn g c) =
      (s.group id).map (fun g => storedColumn g c) := by
  rw [storedColumn_patched hr h c, hsent]
  rfl

theorem listsValue_str {items : List Json} (hv : o.value = some (.arr items)) (u : String) :
    ListsValue o (.str u) ↔ u ∈ idsOf items ∧ u ≠ "" := by
  have hlists : u ∈ idsOf items ↔ ∃ entry ∈ items, entry.get "value" = some (.str u) := by
    simp [idsOf, ListsMember]
  rw [hlists]
  simp only [ListsValue, hv, Option.some.injEq, Json.arr.injEq, exists_eq_left', Json.truthy,
    bne_iff_ne]
  tauto

theorem path_ne_members (hempty : nonempty o.path = false) : o.path ≠ some "members" := by
  intro hp
  simp [hp, nonempty] at hempty

theorem removes_nothing_without_path (hempty : nonempty o.path = false) (v : Json) :
    ¬RemovesMember o v := by
  rintro ⟨_, ⟨hp, _⟩ | ⟨p, _, hp, _, hne, _⟩⟩
  · exact path_ne_members hempty hp
  · simp [hp, nonempty, hne] at hempty

/-- An addition in an object does not come this far: the object is iterated. -/
theorem addMembers_iff {items : List Json} (hr : applyGroupPatch [some o] = some r)
    (h : Patched E now id r s s') (hop : o.op.map toLowerCase = some "add")
    (hsends : Sends o "members" (.arr items)) :
    InEffect id s' (.addMembers (idsOf items)) ↔
      Supported E id o s (.addMembers (idsOf items)) ∨
        InEffect id s (.addMembers (idsOf items)) := by
  rcases hsends with ⟨hpath, hv⟩ | ⟨hempty, fields, hv, _⟩
  · have hremove : ∀ v, ¬RemovesMember o v := by
      simp [RemovesMember, hop]
    have hadd : ∀ u, AddsMember o (.str u) ↔ u ∈ idsOf items ∧ u ≠ "" := by
      intro u
      simp [AddsMember, hop, hpath, listsValue_str hv]
    have hmem : ∀ u, u ∈ memberSet s' id ↔ u ∈ memberSet s id ∨ (u ∈ idsOf items ∧ u ≠ "") := by
      intro u
      simp [memberSet_patched hr h, hremove, hadd]
    simp only [InEffect, Supported, Set.subset_def, hmem, hpath, true_and]
    constructor
    · intro hsubset
      refine Or.inl fun hzero => (hsubset "" hzero).resolve_right fun hne => hne.2 rfl
    · rintro (hzero | hsubset) u hu
      · by_cases hu0 : u = ""
        · exact Or.inl (hu0 ▸ hzero (hu0 ▸ hu))
        · exact Or.inr ⟨hu, hu0⟩
      · exact Or.inl (hsubset u hu)
  · have hsuits : SuitsGroup o := by
      have hall := (applyGroupPatch_isSome [some o]).mp (by rw [hr]; rfl)
      obtain ⟨p, hp, hsuits⟩ := hall _ List.mem_cons_self
      cases hp
      exact hsuits
    have hiterable := hsuits.added hop (Or.inr hempty)
    rw [hv] at hiterable
    contradiction

theorem removeMembers_iff {items : List Json} (hr : applyGroupPatch [some o] = some r)
    (h : Patched E now id r s s') (hop : o.op.map toLowerCase = some "remove")
    (hsends : Sends o "members" (.arr items)) :
    InEffect id s' (.removeMembers (idsOf items)) ↔
      Supported E id o s (.removeMembers (idsOf items)) ∨
        InEffect id s (.removeMembers (idsOf items)) := by
  have hadd : ∀ v, ¬AddsMember o v := by
    simp [AddsMember, hop]
  rcases hsends with ⟨hpath, hv⟩ | ⟨hempty, fields, hv, _⟩
  · have hmem : ∀ u, u ∈ memberSet s' id ↔
        u ∈ memberSet s id ∧ ¬∃ v, ListsValue o v ∧ Selects E v u := by
      intro u
      rw [memberSet_patched hr h]
      simp [RemovesMember, hop, hpath, hadd]
    have hlisted : ∀ u ∈ idsOf items, u ≠ "" → ∃ v, ListsValue o v ∧ Selects E v u :=
      fun u hu hne => ⟨.str u, (listsValue_str hv u).mpr ⟨hu, hne⟩, (selects_str E u u).mpr rfl⟩
    simp only [InEffect, Supported, hmem, hpath, true_and, not_and, not_not]
    constructor
    · exact fun hout => Or.inl fun hzero => hout "" hzero
    · rintro (hzero | hout) u hu hold
      · by_cases hu0 : u = ""
        · subst hu0
          exact hzero hu hold
        · exact hlisted u hu hu0
      · exact absurd hold (hout u hu)
  · have hsame := memberSet_kept hr h (removes_nothing_without_path hempty) hadd
    simp [InEffect, Supported, hsame, path_ne_members hempty]

theorem removeMember_iff {user : String} (hr : applyGroupPatch [some o] = some r)
    (h : Patched E now id r s s') (hop : o.op.map toLowerCase = some "remove")
    (hpath : o.path = some (memberPath user)) :
    InEffect id s' (.removeMember user) ↔
      Supported E id o s (.removeMember user) ∨ InEffect id s (.removeMember user) := by
  have hadd : ∀ v, ¬AddsMember o v := by
    simp [AddsMember, hop]
  have hselects : (∃ v, RemovesMember o v ∧ Selects E v user) ↔
      extractMemberIdFromFilterPath (memberPath user) = some user := by
    constructor
    · rintro ⟨v, ⟨_, ⟨hmembers, _⟩ | ⟨p, u, hp, _, _, _, hextract, rfl⟩⟩, hsel⟩
      · exact absurd (Option.some.inj (hpath.symm.trans hmembers)) (memberPath_ne_members user)
      · have hp' : p = memberPath user := Option.some.inj (hp.symm.trans hpath)
        have hu : user = u := (selects_str E u user).mp hsel
        rw [← hp', hextract, hu]
    · intro hextract
      exact ⟨.str user, ⟨hop, Or.inr ⟨memberPath user, user, hpath, memberPath_ne_members user,
        memberPath_ne_empty user, (extract_sound hextract).1, hextract, rfl⟩⟩,
        (selects_str E user user).mpr rfl⟩
  have hmem := memberSet_patched hr h user
  rw [hselects, extract_memberPath_iff] at hmem
  simp only [InEffect, Supported, hmem, hadd, or_false]
  rw [not_and_not_right]
  exact imp_iff_or_not

theorem removeAllMembers_iff (hr : applyGroupPatch [some o] = some r)
    (h : Patched E now id r s s') (hop : o.op.map toLowerCase = some "remove")
    (hnone : (o.path = some "members" ∧ o.value = none) ∨ Sends o "members" .null) :
    InEffect id s' .removeAllMembers ↔
      Supported E id o s .removeAllMembers ∨ InEffect id s .removeAllMembers := by
  have hadd : ∀ v, ¬AddsMember o v := by
    simp [AddsMember, hop]
  have hremove : ∀ v, ¬RemovesMember o v := by
    rcases hnone with ⟨hpath, hv⟩ | ⟨hpath, hv⟩ | ⟨hempty, _⟩
    · simp [RemovesMember, ListsValue, hpath, hv]
    · simp [RemovesMember, ListsValue, hpath, hv]
    · exact removes_nothing_without_path hempty
  simp [InEffect, Supported, memberSet_kept hr h hremove hadd]

/-- A replacement of the members is passed over. -/
theorem replaceMembers_iff {users : Set String} (hr : applyGroupPatch [some o] = some r)
    (h : Patched E now id r s s') (hop : o.op.map toLowerCase = some "replace") :
    InEffect id s' (.replaceMembers users) ↔
      Supported E id o s (.replaceMembers users) ∨ InEffect id s (.replaceMembers users) := by
  have hadd : ∀ v, ¬AddsMember o v := by
    simp [AddsMember, hop]
  have hremove : ∀ v, ¬RemovesMember o v := by
    simp [RemovesMember, hop]
  simp [InEffect, Supported, memberSet_kept hr h hremove hadd]

theorem setColumn_iff_map (s : Store) (c : GroupColumn) (text : String) :
    InEffect id s (.setColumn c text) ↔
      (s.group id).map (fun g => storedColumn g c) = some (some text) := by
  rw [InEffect, Option.map_eq_some_iff]

/-- What a replacement sends for a column, at a path that is looked at. -/
theorem columnSent_replace {c : GroupColumn} {v : Json}
    (hop : o.op.map toLowerCase = some "replace") (hsends : Sends o c.key v) :
    columnSent c o =
      if c = .displayName ∨ nonempty o.path = false then some (some v) else none := by
  rcases hsends with ⟨hpath, hv⟩ | ⟨hempty, fields, hv, hget⟩
  · rw [columnSent, if_pos hop]
    cases c with
    | displayName => simp [GroupColumn.key, hpath, hv]
    | externalId => simp [GroupColumn.key, hpath, nonempty]
  · simp [columnSent_object hop hempty hv, hget, hempty]

theorem setColumn_iff {c : GroupColumn} {text : String}
    (hr : applyGroupPatch [some o] = some r) (h : Patched E now id r s s')
    (hid : (s.group id).isSome = true)
    (hop : o.op.map toLowerCase = some "add" ∨ o.op.map toLowerCase = some "replace")
    (hsends : Sends o c.key (.str text)) :
    InEffect id s' (.setColumn c text) ↔
      Supported E id o s (.setColumn c text) ∨ InEffect id s (.setColumn c text) := by
  rcases hop with hadd | hreplace
  · have hkept := column_kept hr h (columnSent_other (by simp [hadd]) c)
    simp [setColumn_iff_map, Supported, hkept, hadd]
  · by_cases hread : c = .displayName ∨ nonempty o.path = false
    · have hsupported : Supported E id o s (.setColumn c text) := ⟨hreplace, hread⟩
      refine iff_of_true ?_ (Or.inl hsupported)
      obtain ⟨g, hg⟩ := Option.isSome_iff_exists.mp hid
      have hsent := columnSent_replace hreplace hsends
      rw [if_pos hread] at hsent
      rw [setColumn_iff_map, storedColumn_patched hr h c, hsent, hg]
      simp [jsString]
    · have hsent := columnSent_replace hreplace hsends
      rw [if_neg hread] at hsent
      simp [setColumn_iff_map, Supported, column_kept hr h hsent, hread]

/-- No removal of a column is looked at. -/
theorem removeExternalId_iff (hr : applyGroupPatch [some o] = some r)
    (h : Patched E now id r s s') (hop : o.op.map toLowerCase = some "remove") :
    InEffect id s' .removeExternalId ↔
      Supported E id o s .removeExternalId ∨ InEffect id s .removeExternalId := by
  have hmap : ∀ s : Store, InEffect id s .removeExternalId ↔
      ∀ e, (s.group id).map (fun g => storedColumn g .externalId) = some e → e = none := by
    intro s
    simp [InEffect, storedColumn]
  have hkept := column_kept hr h (columnSent_other (by simp [hop]) .externalId)
  simp [hmap, Supported, hkept]

end Effects

/-- After a PATCH of one operation that is answered with success, the change
it asks for is in effect exactly when it is one that the server makes, or was
in effect before. -/
theorem patch_inEffect_iff {env : Env} {ticks : ℕ → Tick} {id : String} {o : PatchOperation}
    {change : Change} {s s' : Store} {a : Answer} (hasks : AsksFor o change)
    (h : serve env ticks (.patchGroup id [some o]) s = (.ok a, s')) :
    InEffect id s' change ↔
      Supported env.engine id o s change ∨ InEffect id s change := by
  obtain ⟨r, g, hr, hid, hpatched, _, _⟩ := patchGroup_ok h
  cases hasks with
  | addMembers op sends => exact addMembers_iff hr hpatched op sends
  | removeMembers op sends => exact removeMembers_iff hr hpatched op sends
  | removeAllMembers op noValue => exact removeAllMembers_iff hr hpatched op noValue
  | removeMember op path => exact removeMember_iff hr hpatched op path
  | replaceMembers op sends => exact replaceMembers_iff hr hpatched op
  | setColumn op sends => exact setColumn_iff hr hpatched hid op sends
  | removeExternalId op names => exact removeExternalId_iff hr hpatched op

/-- An addition of `u`, in any letter case, to the empty group. -/
theorem patch_inEffect_iff_sample :
    let o := membersOperation "Add" ["u"]
    let joined : Store := { sampleStore with members := [⟨"g", "u"⟩] }
    InEffect "g" joined (.addMembers (idsOf [.obj [("value", .str "u")]])) ↔
      Supported sampleEnv.engine "g" o sampleStore
          (.addMembers (idsOf [.obj [("value", .str "u")]])) ∨
        InEffect "g" sampleStore (.addMembers (idsOf [.obj [("value", .str "u")]])) := by
  have hasks : AsksFor (membersOperation "Add" ["u"])
      (.addMembers (idsOf [.obj [("value", .str "u")]])) :=
    .addMembers (by decide) (Or.inl ⟨rfl, rfl⟩)
  have h : serve sampleEnv sampleTicks (.patchGroup "g" [some (membersOperation "Add" ["u"])])
      sampleStore = (.ok _, { sampleStore with members := [⟨"g", "u"⟩] }) := rfl
  exact patch_inEffect_iff hasks h

/-- The operation asks for a change and is answered with success, but the
tables stay as they are, and without the change. -/
def PassedOver (s : Store) (o : PatchOperation) (change : Change) : Prop :=
  AsksFor o change ∧
    (∃ a, serve sampleEnv sampleTicks (.patchGroup "g" [some o]) s = (.ok a, s)) ∧
    ¬InEffect "g" s change

/-- So it goes for operations on each attribute that is stored. -/
theorem stored_attributes_passed_over :
    PassedOver crowdedStore ⟨some "remove", some "members", none⟩ .removeAllMembers ∧
      PassedOver crowdedStore ⟨some "replace", some "members", some (.arr [])⟩
        (.replaceMembers (idsOf [])) ∧
      PassedOver crowdedStore ⟨some "replace", some "externalId", some (.str "00g1")⟩
        (.setColumn .externalId "00g1") ∧
      PassedOver crowdedStore ⟨some "add", some "displayName", some (.str "crew")⟩
        (.setColumn .displayName "crew") := by
  have hmember : "u" ∈ memberSet crowdedStore "g" := by
    simp [memberSet, crowdedStore]
  refine ⟨⟨.removeAllMembers (by decide) (Or.inl ⟨rfl, rfl⟩), ⟨_, rfl⟩, fun hempty => ?_⟩,
    ⟨.replaceMembers (by decide) (Or.inl ⟨rfl, rfl⟩), ⟨_, rfl⟩, fun hsame => ?_⟩,
    ⟨.setColumn (Or.inr (by decide)) (Or.inl ⟨rfl, rfl⟩), ⟨_, rfl⟩, ?_⟩,
    ⟨.setColumn (Or.inl (by decide)) (Or.inl ⟨rfl, rfl⟩), ⟨_, rfl⟩, ?_⟩⟩
  · exact absurd hmember (Set.eq_empty_iff_forall_notMem.mp hempty "u")
  · have hlisted : "u" ∈ idsOf [] := hsame ▸ hmember
    simp [idsOf, ListsMember] at hlisted
  · rintro ⟨g, hg, htext⟩
    cases hg
    contradiction
  · rintro ⟨g, hg, htext⟩
    cases hg
    contradiction

end OktaScim.PatchPostconditions
