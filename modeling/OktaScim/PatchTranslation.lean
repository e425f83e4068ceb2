import OktaScim.UserPatchMeaning
import OktaScim.GroupPatchColumns

/-!
Which PATCH bodies can be translated. The value of an operation is any JSON,
and the two translations iterate it, read its properties and turn it into a
string; an operation fails in what it does with its own value, whatever came
before it, so a list is translated exactly when each operation is.
-/
namespace OktaScim.PatchTranslation

open JsValues Bodies UserPatch UserPatchMeaning GroupPatch GroupPatchMeaning GroupPatchColumns
open LastWrites

/-- `for (const member of value ?? [])` does not throw. -/
def Iterable (value : Option Json) : Prop := (iterate value).isSome = true

/-- `String(value)` does not throw. -/
def HasText (value : Option Json) : Prop := (jsString value).isSome = true

/-- Paths whose value is turned into a string. -/
def textPaths : List String := ["userName", "name.givenName", "name.familyName", "externalId"]

def emailPaths : List String := ["emails", "emails[primary eq true].value"]

/-- The operation is one that a user PATCH does not skip. -/
def Replaces (o : PatchOperation) : Prop :=
  o.op.map toLowerCase = some "replace" ∨ o.op.map toLowerCase = some "add"

/-- The value of a user operation suits what is done with it. -/
structure SuitsUser (o : PatchOperation) : Prop where
  text : Replaces o → ∀ path ∈ textPaths, o.path = some path → HasText o.value
  emails : Replaces o → ∀ path ∈ emailPaths, o.path = some path →
    ∀ first rest, o.value = some (.arr (first :: rest)) →
      first ≠ .null ∧ HasText (some (chosen first))
  columns : Replaces o → nonempty o.path = false → ∀ fields, o.value = some (.obj fields) →
    ∀ k ∈ ["userName", "externalId"], ∀ v, (Json.obj fields).get k = some v → HasText (some v)
  entries : Replaces o → nonempty o.path = false → ∀ fields, o.value = some (.obj fields) →
    ∀ rest, (Json.obj fields).get "emails" ≠ some (.arr (.null :: rest))

/-- The value of a group operation suits what is done with it. -/
structure SuitsGroup (o : PatchOperation) : Prop where
  added : o.op.map toLowerCase = some "add" → o.path = some "members" ∨ nonempty o.path = false →
    Iterable o.value
  removed : o.op.map toLowerCase = some "remove" → o.path = some "members" → Iterable o.value
  renamed : o.op.map toLowerCase = some "replace" → o.path = some "displayName" → HasText o.value
  replaced : o.op.map toLowerCase = some "replace" → nonempty o.path = false →
    ∀ fields, o.value = some (.obj fields) → ∀ k ∈ ["displayName", "externalId"],
      ∀ v, (Json.obj fields).get k = some v → HasText (some v)

section Shapes

theorem iterable_iff (value : Option Json) :
    Iterable value ↔ ∀ v, value = some v →
      v = .null ∨ (∃ s, v = .str s) ∨ ∃ items, v = .arr items := by
  unfold Iterable iterate
  split
  · simp
  · simp
  · simp
  · simp
  · rename_i v hnull harr hstr
    simp only [Option.isSome_none, Bool.false_eq_true, false_iff, not_forall]
    refine ⟨v, rfl, ?_⟩
    rintro (rfl | ⟨s, rfl⟩ | ⟨items, rfl⟩)
    · exact hnull rfl
    · exact hstr s rfl
    · exact harr items rfl

/-- An object with a property `toString` of its own, or an array with one in it. -/
inductive Textless : Json → Prop
  | object {v : Json} {fields : List (String × Json)} (h : ("toString", v) ∈ fields) :
      Textless (.obj fields)
  | item {v : Json} {items : List Json} (h : Textless v) (hv : v ∈ items) : Textless (.arr items)

mutual

theorem toStr_isSome_iff : ∀ v : Json, v.toStr.isSome = true ↔ ¬Textless v
  | .null => by simp [Json.toStr]; nofun
  | .bool b => by simp [Json.toStr]; nofun
  | .num n => by simp [Json.toStr]; nofun
  | .str s => by simp; nofun
  | .arr items => by
    have hitems := itemStrs_isSome_iff items
    rw [Json.toStr, Option.isSome_map, hitems]
    constructor
    · intro h htextless
      cases htextless with
      | item hv hmem => exact h _ hmem hv
    · exact fun h v hv htextless => h (.item htextless hv)
  | .obj fields => by
    rw [Json.toStr]
    have hown : Textless (.obj fields) ↔ (fields.any fun f => f.1 = "toString") = true := by
      simp only [List.any_eq_true, decide_eq_true_eq, Prod.exists, exists_and_right,
        exists_eq_right]
      constructor
      · rintro (⟨hmem⟩)
        exact ⟨_, hmem⟩
      · rintro ⟨v, hmem⟩
        exact .object hmem
    rw [hown]
    split <;> simp_all

theorem itemStrs_isSome_iff : ∀ items : List Json,
    (Json.itemStrs items).isSome = true ↔ ∀ v ∈ items, ¬Textless v
  | [] => by simp [Json.itemStrs]
  | item :: items => by
    have hitem := toStr_isSome_iff item
    have hitems := itemStrs_isSome_iff items
    rw [List.forall_mem_cons, ← hitem, ← hitems]
    cases item with
    | null => simp [Json.itemStrs, Json.toStr]
    | _ =>
      rw [Json.itemStrs]
      · cases Json.toStr _ <;> simp
      · simp

end

theorem hasText_iff (value : Option Json) :
    HasText value ↔ ∀ v, value = some v → ¬Textless v := by
  cases value with
  | none => simp [HasText, jsString]
  | some v => simpa [HasText, jsString] using toStr_isSome_iff v

theorem mem_copiedFields {fields : List (String × Json)} {k : String} {v : Json}
    (h : (k, v) ∈ copiedFields fields) : k ∉ objectPrototype ∧ ∃ w, v = copied w := by
  induction fields with
  | nil => contradiction
  | cons f fields ih =>
    rw [copiedFields] at h
    split at h
    · exact ih h
    · rename_i hk
      rcases List.mem_cons.mp h with heq | hmem
      · cases heq
        exact ⟨hk, _, rfl⟩
      · exact ih hmem

mutual

/-- No value of an operation keeps a `toString` of its own. -/
theorem not_textless_copied : ∀ v : Json, ¬Textless (copied v)
  | .null => nofun
  | .bool _ => nofun
  | .num _ => nofun
  | .str _ => nofun
  | .arr items => by
    rintro (_ | ⟨h, hmem⟩)
    exact not_textless_items items _ hmem h
  | .obj fields => by
    rintro (⟨hmem⟩)
    exact (mem_copiedFields hmem).1 (by decide)

theorem not_textless_items : ∀ items : List Json, ∀ v ∈ copiedItems items, ¬Textless v
  | [] => nofun
  | item :: items => by
    intro v hv
    rcases List.mem_cons.mp hv with rfl | hmem
    · exact not_textless_copied item
    · exact not_textless_items items v hmem

end

theorem copied_obj_get {w v : Json} {fields : List (String × Json)} {k : String}
    (hw : copied w = .obj fields) (h : (Json.obj fields).get k = some v) : ∃ u, v = copied u := by
  cases w with
  | obj old =>
    cases hw
    obtain ⟨f, hf, rfl⟩ := Option.map_eq_some_iff.mp h
    exact (mem_copiedFields (List.mem_of_find?_eq_some hf)).2
  | _ => cases hw

end Shapes

theorem text_stored (value : Option Json) :
    (Sent.text value).stored.isSome = true ↔ HasText value := by
  rw [Sent.stored, Option.isSome_map]
  rfl

theorem emailSent_converts (value : Option Json) :
    (∀ s, emailSent value = some s → s.stored.isSome = true) ↔
      ∀ first rest, value = some (.arr (first :: rest)) →
        first ≠ .null ∧ HasText (some (chosen first)) := by
  cases value with
  | none => simp [emailSent]
  | some v =>
    cases v with
    | arr items =>
      cases items with
      | nil => simp [emailSent]
      | cons first rest =>
        cases first with
        | null => simp [emailSent, Sent.stored]
        | _ => simp [emailSent, text_stored]
    | str t => simp [emailSent, Sent.stored]
    | _ => simp [emailSent]

/-- What a path sends can be converted. -/
theorem pathSent_converts (path : String) (value : Option Json) :
    (∀ b s, pathSent path value = some (b, s) → s.stored.isSome = true) ↔
      (path ∈ textPaths → HasText value) ∧
        (path ∈ emailPaths → ∀ first rest, value = some (.arr (first :: rest)) →
          first ≠ .null ∧ HasText (some (chosen first))) := by
  have htext : ∀ b : Attribute, (∀ a s, some (b, Sent.text value) = some (a, s) →
      s.stored.isSome = true) ↔ HasText value := by
    intro b
    rw [← text_stored]
    refine ⟨fun h => h b _ rfl, fun h a s hs => ?_⟩
    cases hs
    exact h
  have hemail : (∀ b s, ((emailSent value).map fun s => (Attribute.email, s)) = some (b, s) →
      s.stored.isSome = true) ↔ ∀ first rest, value = some (.arr (first :: rest)) →
        first ≠ .null ∧ HasText (some (chosen first)) := by
    rw [← emailSent_converts]
    cases emailSent value <;> simp
  unfold pathSent
  split
  · simp [textPaths, emailPaths, Sent.stored]
  · rw [htext]
    simp [textPaths, emailPaths]
  · rw [htext]
    simp [textPaths, emailPaths]
  · rw [htext]
    simp [textPaths, emailPaths]
  · rw [htext]
    simp [textPaths, emailPaths]
  · rw [hemail]
    simp [textPaths, emailPaths]
  · rw [hemail]
    simp [textPaths, emailPaths]
  · simp_all [textPaths, emailPaths]

/-- What an object form sends can be converted. -/
theorem objectSent_converts (fields : List (String × Json)) :
    (∀ a s, objectSent (.obj fields) a = some s → s.stored.isSome = true) ↔
      (∀ k ∈ ["userName", "externalId"], ∀ v, (Json.obj fields).get k = some v →
        HasText (some v)) ∧
      ∀ rest, (Json.obj fields).get "emails" ≠ some (.arr (.null :: rest)) := by
  constructor
  · intro h
    refine ⟨?_, ?_⟩
    · intro k hk v hv
      simp only [List.mem_cons, List.not_mem_nil, or_false] at hk
      rcases hk with rfl | rfl
      · exact (text_stored _).mp (h .userName _ (by simp [objectSent, hv]))
      · exact (text_stored _).mp (h .externalId _ (by simp [objectSent, hv]))
    · intro rest hrest
      have hnull := h .email .ofNull (by simp [objectSent, entrySent, hrest])
      contradiction
  · intro h a s hs
    obtain ⟨hcolumns, hentries⟩ := h
    cases a with
    | active =>
      obtain ⟨v, _, rfl⟩ := Option.map_eq_some_iff.mp hs
      rfl
    | userName =>
      obtain ⟨v, hv, rfl⟩ := Option.map_eq_some_iff.mp hs
      exact (text_stored _).mpr (hcolumns _ (by simp) v hv)
    | externalId =>
      obtain ⟨v, hv, rfl⟩ := Option.map_eq_some_iff.mp hs
      exact (text_stored _).mpr (hcolumns _ (by simp) v hv)
    | givenName =>
      obtain ⟨v, _, rfl⟩ := Option.map_eq_some_iff.mp hs
      rfl
    | familyName =>
      obtain ⟨v, _, rfl⟩ := Option.map_eq_some_iff.mp hs
      rfl
    | email =>
      simp only [objectSent, entrySent] at hs
      split at hs
      · rename_i rest hnull
        exact absurd hnull (hentries rest)
      · cases hs
        rfl
      · contradiction

section Operation

variable {o : PatchOperation}

theorem sent_skipped (h : ¬Replaces o) (a : Attribute) : sent a o = none := by
  rw [Replaces, not_or] at h
  exact if_pos h

theorem sent_path (h : Replaces o) {p : String} (hp : o.path = some p) (hne : p ≠ "")
    (a : Attribute) :
    sent a o = ((pathSent p o.value).filter fun q => q.1 = a).map Prod.snd := by
  have hskip : ¬(o.op.map toLowerCase ≠ some "replace" ∧ o.op.map toLowerCase ≠ some "add") :=
    fun hop => h.elim hop.1 hop.2
  have hpath : nonempty o.path = true := by
    simp [hp, nonempty, hne]
  rw [sent, if_neg hskip, if_pos hpath, hp]
  rfl

theorem sent_object (h : Replaces o) (hempty : nonempty o.path = false)
    {fields : List (String × Json)} (hv : o.value = some (.obj fields)) (a : Attribute) :
    sent a o = objectSent (.obj fields) a := by
  have hskip : ¬(o.op.map toLowerCase ≠ some "replace" ∧ o.op.map toLowerCase ≠ some "add") :=
    fun hop => h.elim hop.1 hop.2
  have hpath : ¬nonempty o.path = true := by
    simp [hempty]
  rw [sent, if_neg hskip, if_neg hpath, hv]

/-- Without a path only an object sends something. -/
theorem sent_other (hempty : nonempty o.path = false)
    (hv : ∀ fields, o.value ≠ some (.obj fields)) (a : Attribute) : sent a o = none := by
  rw [Option.eq_none_iff_forall_ne_some]
  intro s hs
  rcases sent_cases hs with ⟨path, hp, hpath⟩ | ⟨fields, hobject, _⟩
  · have hzero : path = "" := by
      simpa [hp, nonempty] using hempty
    rw [hzero, pathSent_other (by decide)] at hpath
    contradiction
  · exact hv fields hobject

theorem suitsUser_path (h : Replaces o) {p : String} (hp : o.path = some p) (hne : p ≠ "") :
    SuitsUser o ↔ (p ∈ textPaths → HasText o.value) ∧
      (p ∈ emailPaths → ∀ first rest, o.value = some (.arr (first :: rest)) →
        first ≠ .null ∧ HasText (some (chosen first))) := by
  constructor
  · exact fun hsuits => ⟨fun hmem => hsuits.text h p hmem hp, fun hmem => hsuits.emails h p hmem hp⟩
  · intro hvalue
    refine ⟨fun _ path hmem heq => ?_, fun _ path hmem heq => ?_, ?_, ?_⟩
    · cases hp.symm.trans heq
      exact hvalue.1 hmem
    · cases hp.symm.trans heq
      exact hvalue.2 hmem
    · simp [hp, nonempty, hne]
    · simp [hp, nonempty, hne]

theorem suitsUser_object (h : Replaces o) (hempty : nonempty o.path = false) :
    SuitsUser o ↔ ∀ fields, o.value = some (.obj fields) →
      (∀ k ∈ ["userName", "externalId"], ∀ v, (Json.obj fields).get k = some v →
        HasText (some v)) ∧
      ∀ rest, (Json.obj fields).get "emails" ≠ some (.arr (.null :: rest)) := by
  have hnopath : ∀ paths : List String, "" ∉ paths → ∀ path ∈ paths, o.path ≠ some path := by
    intro paths hnot path hmem heq
    simp only [heq, nonempty, bne_eq_false_iff_eq] at hempty
    exact hnot (hempty ▸ hmem)
  constructor
  · exact fun hsuits fields hv =>
      ⟨hsuits.columns h hempty fields hv, hsuits.entries h hempty fields hv⟩
  · intro hvalue
    refine ⟨fun _ path hmem heq => ?_, fun _ path hmem heq => ?_, fun _ _ fields hv => ?_,
      fun _ _ fields hv => ?_⟩
    · exact absurd heq (hnopath textPaths (by decide) path hmem)
    · exact absurd heq (hnopath emailPaths (by decide) path hmem)
    · exact (hvalue fields hv).1
    · exact (hvalue fields hv).2

/-- What an operation sends can be converted exactly when its value suits it. -/
theorem converts_iff (o : PatchOperation) :
    (∀ a s, sent a o = some s → s.stored.isSome = true) ↔ SuitsUser o := by
  by_cases hop : Replaces o
  · cases hpath : nonempty o.path with
    | true =>
      obtain ⟨p, hp, hne⟩ := nonempty_eq_true_iff.mp hpath
      rw [suitsUser_path hop hp hne, ← pathSent_converts]
      simp only [sent_path hop hp hne]
      cases pathSent p o.value with
      | none => simp
      | some q =>
        obtain ⟨b, s⟩ := q
        simp [Option.filter_some, apply_ite]
    | false =>
      rw [suitsUser_object hop hpath]
      by_cases hobject : ∃ fields, o.value = some (.obj fields)
      · obtain ⟨fields, hv⟩ := hobject
        simp only [sent_object hop hpath hv, hv, Option.some.injEq, Json.obj.injEq, forall_eq']
        exact objectSent_converts fields
      · rw [not_exists] at hobject
        refine iff_of_true (fun a s hs => ?_) fun fields hv => absurd hv (hobject fields)
        rw [sent_other hpath hobject a] at hs
        contradiction
  · refine iff_of_true (fun a s hs => ?_) ?_
    · rw [sent_skipped hop a] at hs
      contradiction
    · exact ⟨fun h => absurd h hop, fun h => absurd h hop, fun h => absurd h hop,
        fun h => absurd h hop⟩

end Operation

theorem applyUserPatch_suits (ops : List (Option PatchOperation)) :
    (applyUserPatch ops).isSome = true ↔ ∀ o ∈ ops, ∃ p, o = some p ∧ SuitsUser p := by
  simp only [applyUserPatch_isSome, Converts, converts_iff]

theorem assignString_isSome (value : Json) (k : String) (target : Option String) :
    (assignString value k target).isSome = true ↔
      ∀ v, value.get k = some v → HasText (some v) := by
  unfold assignString Json.has HasText
  cases value.get k <;> simp

/-- A turn fails in what it does with the value of its operation, if at all. -/
theorem applyGroupOperation_isSome (r : GroupPatchResult) (o : PatchOperation) :
    (applyGroupOperation r o).isSome = true ↔ SuitsGroup o := by
  cases applyGroupOperation_turn r o with
  | addList op path result =>
    rw [← result, Option.isSome_map]
    exact ⟨fun h => ⟨fun _ _ => h, by simp [op], by simp [op], by simp [op]⟩,
      fun h => h.added op path⟩
  | removeList op path result =>
    rw [← result, Option.isSome_map]
    exact ⟨fun h => ⟨by simp [op], fun _ _ => h, by simp [op], by simp [op]⟩,
      fun h => h.removed op path⟩
  | removeOne op path other filled selects filledId result =>
    rw [← result]
    exact iff_of_true rfl ⟨by simp [op], by simp [path, other], by simp [op], by simp [op]⟩
  | rename op path result =>
    rw [← result, Option.isSome_map]
    exact ⟨fun h => ⟨by simp [op], by simp [op], fun _ _ => h, by simp [path, nonempty]⟩,
      fun h => h.renamed op path⟩
  | assign op path value result =>
    rename_i fields
    have hsuits : SuitsGroup o ↔ ∀ k ∈ ["displayName", "externalId"], ∀ v,
        (Json.obj fields).get k = some v → HasText (some v) := by
      refine ⟨fun h => h.replaced op path fields value,
        fun h => ⟨by simp [op], by simp [op], ?_, ?_⟩⟩
      · intro _ hpath
        simp [hpath, nonempty] at path
      · intro _ _ fields' hv
        cases value.symm.trans hv
        exact h
    have hname := assignString_isSome (.obj fields) "displayName" r.displayName
    have hexternal := assignString_isSome (.obj fields) "externalId" r.externalId
    rw [← result, hsuits]
    simp only [List.mem_cons, List.not_mem_nil, or_false, forall_eq_or_imp, forall_eq, ← hname,
      ← hexternal]
    cases assignString (.obj fields) "displayName" r.displayName <;>
      cases assignString (.obj fields) "externalId" r.externalId <;> simp
  | passOver add remove replace result =>
    rw [← result]
    exact iff_of_true rfl ⟨fun hop hpath => absurd ⟨hop, hpath⟩ add,
      fun hop hpath => absurd hpath (remove hop).1,
      fun hop hpath => absurd hpath (replace hop).1,
      fun hop hempty fields hv => absurd hv ((replace hop).2 hempty fields)⟩

theorem applyGroupPatch_isSome (ops : List (Option PatchOperation)) :
    (applyGroupPatch ops).isSome = true ↔ ∀ o ∈ ops, ∃ p, o = some p ∧ SuitsGroup p := by
  rw [applyGroupPatch, applyGroupOperations_eq]
  refine foldlM_isSome (fun r o => ?_) ops _
  cases o with
  | none => simp
  | some p => simp [applyGroupOperation_isSome]

/-- What the group translation stores of an operation has a text. -/
theorem hasText_of_columnSent {o : PatchOperation} {c : GroupColumn} {v : Option Json}
    (hsuits : SuitsGroup o) (h : columnSent c o = some v) : HasText v := by
  unfold columnSent at h
  split at h
  · rename_i hop
    split at h
    · rename_i hpath
      split at h
      · cases h
        exact hsuits.renamed hop hpath
      · contradiction
    · split at h
      · contradiction
      · rename_i hempty
        split at h
        · rename_i fields hv
          obtain ⟨w, hget, rfl⟩ := Option.map_eq_some_iff.mp h
          rw [Bool.not_eq_true] at hempty
          refine hsuits.replaced hop hempty fields hv c.key ?_ w hget
          cases c <;> simp [GroupColumn.key]
        · contradiction
  · contradiction

theorem hasText_of_lastColumn {ops : List (Option PatchOperation)} {r : GroupPatchResult}
    (hr : applyGroupPatch ops = some r) {c : GroupColumn} {v : Option Json}
    (hlast : lastColumn c ops = some v) : HasText v := by
  obtain ⟨o, ho, hsent⟩ := mem_of_lastWrite hlast
  obtain ⟨p, rfl, hsuits⟩ := (applyGroupPatch_isSome ops).mp (by rw [hr]; rfl) o ho
  exact hasText_of_columnSent hsuits hsent

section Bodies

variable {body : Json} {ops : List (Option PatchOperation)}

theorem value_of_readPatchBody (h : readPatchBody body = some ops) {o : Option PatchOperation}
    (ho : o ∈ ops) : ∃ p w, o = some p ∧ p.value = Option.map copied w := by
  unfold readPatchBody at h
  split at h
  · split at h
    · rename_i items _
      split at h
      · rename_i hok
        cases h
        obtain ⟨item, hitem, rfl⟩ := List.mem_map.mp ho
        have hvalid := nestedOk_of_mem hok.2 hitem
        cases item with
        | null => contradiction
        | bool b => exact ⟨_, (Json.bool b).get "value", rfl, rfl⟩
        | num n => exact ⟨_, (Json.num n).get "value", rfl, rfl⟩
        | str s => exact ⟨_, (Json.str s).get "value", rfl, rfl⟩
        | arr items => exact ⟨_, (Json.arr items).get "value", rfl, rfl⟩
        | obj fields => exact ⟨_, (Json.obj fields).get "value", rfl, rfl⟩
      · contradiction
    · contradiction
  · contradiction

/-- In a body that is accepted every text can be made, so that a group PATCH
fails only where it goes through the members. -/
theorem validated_group_returns_iff (h : readPatchBody body = some ops) :
    (applyGroupPatch ops).isSome = true ↔ ∀ p, some p ∈ ops →
      (p.op.map toLowerCase = some "add" → p.path = some "members" ∨ nonempty p.path = false →
        Iterable p.value) ∧
      (p.op.map toLowerCase = some "remove" → p.path = some "members" → Iterable p.value) := by
  rw [applyGroupPatch_isSome]
  constructor
  · intro hall p hp
    obtain ⟨q, hq, hsuits⟩ := hall _ hp
    cases hq
    exact ⟨hsuits.added, hsuits.removed⟩
  · intro hall o ho
    obtain ⟨p, w, rfl, hvalue⟩ := value_of_readPatchBody h ho
    obtain ⟨hadded, hremoved⟩ := hall p ho
    refine ⟨p, rfl, hadded, hremoved, fun _ _ => ?_, fun _ _ fields hv k _ v hget => ?_⟩
    · rw [hvalue, hasText_iff]
      intro v hv
      obtain ⟨u, _, rfl⟩ := Option.map_eq_some_iff.mp hv
      exact not_textless_copied u
    · rw [hv] at hvalue
      obtain ⟨u, _, hu⟩ := Option.map_eq_some_iff.mp hvalue.symm
      obtain ⟨x, rfl⟩ := copied_obj_get hu hget
      exact (hasText_iff _).mpr fun y hy => Option.some.inj hy ▸ not_textless_copied x

end Bodies

/-- Both translations return exactly where each operation suits them. -/
theorem translations_return_iff (ops : List (Option PatchOperation)) :
    ((applyUserPatch ops).isSome = true ↔ ∀ o ∈ ops, ∃ p, o = some p ∧ SuitsUser p) ∧
      ((applyGroupPatch ops).isSome = true ↔ ∀ o ∈ ops, ∃ p, o = some p ∧ SuitsGroup p) :=
  ⟨applyUserPatch_suits ops, applyGroupPatch_isSome ops⟩

/-- The body of a PATCH with one operation. -/
def patchBody (op path : String) (value : Json) : Json :=
  .obj [("Operations", .arr [.obj [("op", .str op), ("path", .str path), ("value", value)]])]

/-- Both bodies validate: in one a number is iterated, in the other a property
of null is read. -/
theorem validated_bodies_throw :
    (readPatchBody (patchBody "add" "members" (.num (.finite false 5 1)))).isSome = true ∧
      (readPatchBody (patchBody "add" "members" (.num (.finite false 5 1)))).bind applyGroupPatch =
        none ∧
      (readPatchBody (patchBody "replace" "emails" (.arr [.null]))).isSome = true ∧
      (readPatchBody (patchBody "replace" "emails" (.arr [.null]))).bind applyUserPatch = none :=
  ⟨rfl, rfl, rfl, rfl⟩

end OktaScim.PatchTranslation
