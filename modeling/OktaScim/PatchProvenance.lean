import OktaScim.FilterPaths
import OktaScim.PatchTranslation

/-!
Where the values of a translated PATCH come from. What a field holds was last
sent for it by an operation: unchanged, if it had the type of the field there,
and turned into a string or a boolean that nobody sent, if it had not.
-/
namespace OktaScim.PatchProvenance

open JsValues Bodies UserPatch UserPatchMeaning GroupPatch GroupPatchMeaning
open GroupPatchColumns PatchTranslation FilterPaths LastWrites

section Parts

/-- A value is a part of another one, or the whole of it. -/
inductive Occurs : Json → Json → Prop
  | here (v : Json) : Occurs v v
  | item {w v : Json} {items : List Json} (h : Occurs w v) (hv : v ∈ items) :
      Occurs w (.arr items)
  | field {w v : Json} {fields : List (String × Json)} {k : String} (h : Occurs w v)
      (hv : (k, v) ∈ fields) : Occurs w (.obj fields)

theorem Occurs.trans {u v w : Json} (huv : Occurs u v) (hvw : Occurs v w) : Occurs u w := by
  induction hvw with
  | here => exact huv
  | item _ hv ih => exact .item ih hv
  | field _ hv ih => exact .field ih hv

theorem occurs_get {v w : Json} {k : String} (h : v.get k = some w) : Occurs w v := by
  cases v with
  | obj fields =>
    obtain ⟨f, hf, rfl⟩ := Option.map_eq_some_iff.mp h
    exact .field (.here _) (List.mem_of_find?_eq_some hf)
  | _ => contradiction

end Parts

section Users

def valueOf : Sent → Option Json
  | .text v => v
  | .truth v => v
  | .asIs v => v
  | .ofNull => none

theorem chosen_occurs (first : Json) : Occurs (chosen first) first := by
  unfold chosen
  split
  · exact .here first
  · exact .here first
  · rename_i v _ hget
    exact occurs_get hget

theorem emailSent_occurs {value : Option Json} {s : Sent} {w : Json}
    (h : emailSent value = some s) (hw : valueOf s = some w) :
    ∃ v, value = some v ∧ Occurs w v := by
  unfold emailSent at h
  split at h
  · cases h
    contradiction
  · cases h
    cases hw
    exact ⟨_, rfl, .item (chosen_occurs _) List.mem_cons_self⟩
  · cases h
    cases hw
    exact ⟨_, rfl, .here _⟩
  · contradiction

theorem pathSent_occurs {path : String} {value : Option Json} {a : Attribute} {s : Sent} {w : Json}
    (h : pathSent path value = some (a, s)) (hw : valueOf s = some w) :
    ∃ v, value = some v ∧ Occurs w v := by
  have hemail : ∀ b : Attribute, (emailSent value).map (fun s => (b, s)) = some (a, s) →
      ∃ v, value = some v ∧ Occurs w v := by
    intro b hb
    obtain ⟨t, ht, heq⟩ := Option.map_eq_some_iff.mp hb
    cases heq
    exact emailSent_occurs ht hw
  unfold pathSent at h
  split at h
  · cases h
    exact ⟨w, hw, .here w⟩
  · cases h
    exact ⟨w, hw, .here w⟩
  · cases h
    exact ⟨w, hw, .here w⟩
  · cases h
    exact ⟨w, hw, .here w⟩
  · cases h
    exact ⟨w, hw, .here w⟩
  · exact hemail _ h
  · exact hemail _ h
  · contradiction

theorem objectSent_occurs {value : Json} {a : Attribute} {s : Sent} {w : Json}
    (h : objectSent value a = some s) (hw : valueOf s = some w) : Occurs w value := by
  have hfield : ∀ (k : String) (f : Json → Sent), (∀ v, valueOf (f v) = some v) →
      (value.get k).map f = some s → Occurs w value := by
    intro k f hf hs
    obtain ⟨v, hv, rfl⟩ := Option.map_eq_some_iff.mp hs
    rw [hf, Option.some.injEq] at hw
    exact hw ▸ occurs_get hv
  have hname : ∀ k : String, ((value.get "name").bind fun n => n.get k).map
      (fun v => Sent.asIs (some v)) = some s → Occurs w value := by
    intro k hs
    obtain ⟨v, hv, rfl⟩ := Option.map_eq_some_iff.mp hs
    obtain ⟨n, hn, hv⟩ := Option.bind_eq_some_iff.mp hv
    cases hw
    exact (occurs_get hv).trans (occurs_get hn)
  cases a with
  | active => exact hfield _ _ (fun _ => rfl) h
  | userName => exact hfield _ _ (fun _ => rfl) h
  | externalId => exact hfield _ _ (fun _ => rfl) h
  | givenName => exact hname _ h
  | familyName => exact hname _ h
  | email =>
    simp only [objectSent, entrySent] at h
    split at h
    · cases h
      contradiction
    · rename_i first rest _ hemails
      cases h
      exact (occurs_get hw).trans (.item (.here first) List.mem_cons_self) |>.trans
        (occurs_get hemails)
    · contradiction

/-- What is sent is a part of the operation's value. -/
theorem sent_occurs {a : Attribute} {o : PatchOperation} {s : Sent} {w : Json}
    (h : sent a o = some s) (hw : valueOf s = some w) : ∃ v, o.value = some v ∧ Occurs w v := by
  rcases sent_cases h with ⟨path, _, hpath⟩ | ⟨fields, hv, hobject⟩
  · exact pathSent_occurs hpath hw
  · exact ⟨.obj fields, hv, objectSent_occurs hobject hw⟩

variable {ops : List (Option PatchOperation)} {f : UserPatchFields}

/-- The last operation that sends something for the attribute sends this value
for it, as it stands in the value of the operation. -/
def LastValue (ops : List (Option PatchOperation)) (a : Attribute) (w : Json) : Prop :=
  ∃ before p after v, ops = before ++ some p :: after ∧
    (∃ s, sent a p = some s ∧ valueOf s = some w) ∧ (p.value = some v ∧ Occurs w v) ∧
    ∀ o ∈ after, sentBy a o = none

theorem lastValue_iff {a : Attribute} {s : Sent} (hs : lastSent a ops = some s) (w : Json) :
    LastValue ops a w ↔ valueOf s = some w := by
  constructor
  · rintro ⟨before, p, after, v, hops, ⟨s', hsent, hw⟩, _, hafter⟩
    have hlast : lastSent a ops = some s' :=
      lastWrite_eq_some_iff.mpr ⟨before, some p, after, hops, hsent, hafter⟩
    obtain rfl := Option.some.inj (hs.symm.trans hlast)
    exact hw
  · intro hw
    obtain ⟨before, o, after, hops, hsent, hafter⟩ := lastWrite_eq_some_iff.mp hs
    obtain ⟨p, rfl, hp⟩ := Option.bind_eq_some_iff.mp hsent
    obtain ⟨v, hv, hoccurs⟩ := sent_occurs hp hw
    exact ⟨before, p, after, v, hops, ⟨s, hp, hw⟩, ⟨hv, hoccurs⟩, hafter⟩

/-- The type that `UserPatchFields` declares for an attribute. -/
def HasType (a : Attribute) (w : Json) : Prop :=
  if a = .active then ∃ b, w = .bool b else ∃ t, w = .str t

/-- A field is null or undefined, or has its type and is the value that was
last sent for it. -/
def FromRequest (ops : List (Option PatchOperation)) (a : Attribute) (field : Option Json) :
    Prop :=
  field = none ∨ field = some .null ∨ ∃ w, field = some w ∧ HasType a w ∧ LastValue ops a w

/-- What is sent needs no conversion: a string, a boolean, or for what is stored
as it is a string, null or nothing. -/
def Genuine : Sent → Prop
  | .text v => ∃ t, v = some (.str t)
  | .truth v => ∃ b, v = some (.bool b)
  | .asIs v => ∀ w, v = some w → w = .null ∨ ∃ t, w = .str t
  | .ofNull => True

/-- Only `active` is stored as a boolean. -/
theorem fits_truth_iff {a : Attribute} {s : Sent} (h : Fits a s) :
    (∃ v, s = .truth v) ↔ a = .active := by
  cases a with
  | active => exact iff_of_true h rfl
  | userName =>
    obtain ⟨v, rfl⟩ := h
    simp
  | externalId =>
    obtain ⟨v, rfl⟩ := h
    simp
  | givenName => exact iff_of_false (not_exists.mpr h) (by decide)
  | familyName => exact iff_of_false (not_exists.mpr h) (by decide)
  | email => exact iff_of_false (not_exists.mpr h) (by decide)

theorem text_fromRequest_iff {a : Attribute} {v : Option Json} {t : String} (ha : a ≠ .active)
    (ht : jsString v = some t) (hlast : ∀ w, LastValue ops a w ↔ v = some w) :
    FromRequest ops a (some (.str t)) ↔ ∃ t', v = some (.str t') := by
  constructor
  · rintro (hnone | hnull | ⟨w, hw, _, hsent⟩)
    · contradiction
    · cases Option.some.inj hnull
    · exact ⟨t, (hlast _).mp (Option.some.inj hw ▸ hsent)⟩
  · rintro ⟨t', rfl⟩
    obtain rfl : t' = t := Option.some.inj ht
    exact Or.inr (Or.inr ⟨_, rfl, by rw [HasType, if_neg ha]; exact ⟨_, rfl⟩, (hlast _).mpr rfl⟩)

theorem truth_fromRequest_iff {v : Option Json}
    (hlast : ∀ w, LastValue ops .active w ↔ v = some w) :
    FromRequest ops .active (some (.bool (toBoolean v))) ↔ ∃ b, v = some (.bool b) := by
  constructor
  · rintro (hnone | hnull | ⟨w, hw, _, hsent⟩)
    · contradiction
    · cases Option.some.inj hnull
    · exact ⟨_, (hlast _).mp (Option.some.inj hw ▸ hsent)⟩
  · rintro ⟨b, rfl⟩
    exact Or.inr (Or.inr ⟨.bool b, rfl, ⟨b, rfl⟩, (hlast _).mpr rfl⟩)

theorem asIs_fromRequest_iff {a : Attribute} {v : Option Json} (ha : a ≠ .active)
    (hlast : ∀ w, LastValue ops a w ↔ v = some w) :
    FromRequest ops a v ↔ ∀ w, v = some w → w = .null ∨ ∃ t, w = .str t := by
  constructor
  · intro hfrom w hw
    rcases hfrom with hnone | hnull | ⟨w', hw', htype, _⟩
    · rw [hw] at hnone
      contradiction
    · rw [hw, Option.some.injEq] at hnull
      exact Or.inl hnull
    · rw [hw, Option.some.injEq] at hw'
      rw [HasType, if_neg ha] at htype
      exact Or.inr (hw' ▸ htype)
  · intro hgenuine
    cases hv : v with
    | none => exact Or.inl rfl
    | some w =>
      rcases hgenuine w hv with rfl | hstr
      · exact Or.inr (Or.inl rfl)
      · exact Or.inr (Or.inr ⟨w, rfl, by rwa [HasType, if_neg ha], (hlast w).mpr hv⟩)

theorem fromRequest_iff (h : applyUserPatch ops = some f) {a : Attribute} {s : Sent}
    (hs : lastSent a ops = some s) : FromRequest ops a (fieldOf f a) ↔ Genuine s := by
  have hstored := stored_of_lastSent h hs
  have hlast := lastValue_iff hs
  obtain ⟨o, _, hsent⟩ := mem_of_lastWrite hs
  obtain ⟨p, _, hp⟩ := Option.bind_eq_some_iff.mp hsent
  have htruth := fits_truth_iff (sent_fits hp)
  cases s with
  | text v =>
    obtain ⟨t, ht, hfield⟩ := Option.map_eq_some_iff.mp hstored
    have ha : a ≠ .active := fun ha => by simpa using htruth.mpr ha
    rw [← hfield]
    exact text_fromRequest_iff ha ht hlast
  | truth v =>
    have ha : a = .active := htruth.mp ⟨v, rfl⟩
    have hfield : fieldOf f a = some (.bool (toBoolean v)) := (Option.some.inj hstored).symm
    subst ha
    rw [hfield]
    exact truth_fromRequest_iff hlast
  | asIs v =>
    have ha : a ≠ .active := fun ha => by simpa using htruth.mpr ha
    have hfield : fieldOf f a = v := (Option.some.inj hstored).symm
    rw [hfield]
    exact asIs_fromRequest_iff ha hlast
  | ofNull => contradiction

theorem user_fromRequest_iff (h : applyUserPatch ops = some f) :
    (∀ a, FromRequest ops a (fieldOf f a)) ↔ ∀ a s, lastSent a ops = some s → Genuine s := by
  constructor
  · intro hfrom a s hs
    exact (fromRequest_iff h hs).mp (hfrom a)
  · intro hgenuine a
    cases hs : lastSent a ops with
    | none => exact Or.inl (field_of_nothing_sent h hs)
    | some s => exact (fromRequest_iff h hs).mpr (hgenuine a s hs)

end Users

section Groups

variable {ops : List (Option PatchOperation)} {r : GroupPatchResult}

/-- The id is a part of the path of an operation. -/
def InPath (ops : List (Option PatchOperation)) (id : String) : Prop :=
  ∃ p path, some p ∈ ops ∧ p.path = some path ∧ id.toList <:+: path.toList

/-- An operation lists the value as that of a member. -/
def Listed (ops : List (Option PatchOperation)) (v : Json) : Prop :=
  ∃ p, some p ∈ ops ∧ ListsValue p v

/-- The last operation that sends something for the column sends this text, as
it stands in the value of the operation. -/
def LastText (ops : List (Option PatchOperation)) (c : GroupColumn) (t : String) : Prop :=
  ∃ before p after v, ops = before ++ some p :: after ∧ columnSent c p = some (some (.str t)) ∧
    (p.value = some v ∧ Occurs (.str t) v) ∧ ∀ o ∈ after, o.bind (columnSent c) = none

/-- The columns are texts that were last sent for them, and the members are
strings that are listed, or parts of a path. -/
structure GroupFromRequest (ops : List (Option PatchOperation)) (r : GroupPatchResult) : Prop where
  columns : ∀ c t, columnOf r c = some t → LastText ops c t
  added : ∀ v ∈ r.addMemberIds, ∃ u, v = .str u ∧ Listed ops (.str u)
  removed : ∀ v ∈ r.removeMemberIds, ∃ u, v = .str u ∧ (Listed ops (.str u) ∨ InPath ops u)

/-- What was last sent for a column is a string, and every member that is listed
with a truthy value has a string. -/
structure GroupGenuine (ops : List (Option PatchOperation)) : Prop where
  columns : ∀ c v, lastColumn c ops = some v → ∃ t, v = some (.str t)
  members : ∀ v, NamedInAdd ops v ∨ NamedInRemove ops v → ∃ u, v = .str u

theorem columnSent_occurs {c : GroupColumn} {o : PatchOperation} {w : Json}
    (h : columnSent c o = some (some w)) : ∃ v, o.value = some v ∧ Occurs w v := by
  unfold columnSent at h
  split at h
  · split at h
    · split at h
      · exact ⟨w, Option.some.inj h, .here w⟩
      · contradiction
    · split at h
      · contradiction
      · split at h
        · rename_i fields hv
          obtain ⟨v, hget, heq⟩ := Option.map_eq_some_iff.mp h
          cases heq
          exact ⟨.obj fields, hv, occurs_get hget⟩
        · contradiction
  · contradiction

theorem lastText_iff {c : GroupColumn} {v : Option Json} (hlast : lastColumn c ops = some v)
    (t : String) : LastText ops c t ↔ v = some (.str t) := by
  constructor
  · rintro ⟨before, p, after, w, hops, hsent, _, hafter⟩
    have hlast' : lastColumn c ops = some (some (.str t)) :=
      lastWrite_eq_some_iff.mpr ⟨before, some p, after, hops, hsent, hafter⟩
    exact Option.some.inj (hlast.symm.trans hlast')
  · rintro rfl
    obtain ⟨before, o, after, hops, hsent, hafter⟩ := lastWrite_eq_some_iff.mp hlast
    obtain ⟨p, rfl, hp⟩ := Option.bind_eq_some_iff.mp hsent
    obtain ⟨w, hw, hoccurs⟩ := columnSent_occurs hp
    exact ⟨before, p, after, w, hops, hp, ⟨hw, hoccurs⟩, hafter⟩

theorem column_fromRequest_iff (h : applyGroupPatch ops = some r) (c : GroupColumn) :
    (∀ t, columnOf r c = some t → LastText ops c t) ↔
      ∀ v, lastColumn c ops = some v → ∃ t, v = some (.str t) := by
  have hstored := applyGroupPatch_column h c
  cases hlast : lastColumn c ops with
  | none =>
    rw [hlast] at hstored
    simp [hstored]
  | some v =>
    rw [hlast, Option.bind_some] at hstored
    obtain ⟨t, ht⟩ := Option.isSome_iff_exists.mp (hasText_of_lastColumn h hlast)
    rw [hstored, ht]
    simp only [Option.some.injEq, forall_eq', lastText_iff hlast]
    constructor
    · intro hv
      exact ⟨t, hv⟩
    · rintro ⟨t', rfl⟩
      exact congrArg (fun t => some (Json.str t)) (Option.some.inj ht)

theorem group_fromRequest_iff (h : applyGroupPatch ops = some r) :
    GroupFromRequest ops r ↔ GroupGenuine ops := by
  have hadd : ∀ v, v ∈ r.addMemberIds ↔ NamedInAdd ops v := fun v =>
    (applyGroupPatch_members h v).1
  have hremove : ∀ v, v ∈ r.removeMemberIds ↔ NamedInRemove ops v := fun v =>
    (applyGroupPatch_members h v).2
  constructor
  · intro hfrom
    refine ⟨fun c => (column_fromRequest_iff h c).mp (hfrom.columns c), fun v hv => ?_⟩
    rcases hv with hv | hv
    · obtain ⟨u, hu, _⟩ := hfrom.added v ((hadd v).mpr hv)
      exact ⟨u, hu⟩
    · obtain ⟨u, hu, _⟩ := hfrom.removed v ((hremove v).mpr hv)
      exact ⟨u, hu⟩
  · intro hgenuine
    refine ⟨fun c => (column_fromRequest_iff h c).mpr (hgenuine.columns c), ?_, ?_⟩
    · intro v hv
      have hnamed := (hadd v).mp hv
      obtain ⟨u, rfl⟩ := hgenuine.members v (Or.inl hnamed)
      obtain ⟨p, hp, _, _, hlists⟩ := hnamed
      exact ⟨u, rfl, p, hp, hlists⟩
    · intro v hv
      have hnamed := (hremove v).mp hv
      obtain ⟨u, rfl⟩ := hgenuine.members v (Or.inr hnamed)
      refine ⟨u, rfl, ?_⟩
      obtain ⟨p, hp, _, ⟨_, hlists⟩ | ⟨path, id, hpath, _, _, _, hextract, hid⟩⟩ := hnamed
      · exact Or.inl ⟨p, hp, hlists⟩
      · cases hid
        exact Or.inr ⟨p, path, hp, hpath, (extract_sound hextract).2.2⟩

end Groups

/-- The results hold nothing but values that were last sent for their fields
exactly where the operations send values of the declared types. -/
theorem patch_values_sent_iff (ops : List (Option PatchOperation)) :
    (∀ f, applyUserPatch ops = some f →
      ((∀ a, FromRequest ops a (fieldOf f a)) ↔ ∀ a s, lastSent a ops = some s → Genuine s)) ∧
      ∀ r, applyGroupPatch ops = some r → (GroupFromRequest ops r ↔ GroupGenuine ops) :=
  ⟨fun _ h => user_fromRequest_iff h, fun _ h => group_fromRequest_iff h⟩

/-- A text for `active` with the boolean behind it, and an email address. -/
def correction : List (Option PatchOperation) :=
  [some ⟨some "Replace", some "active", some (.str "False")⟩,
    some ⟨some "Replace", none, some (.obj [("active", .bool false),
      ("emails", .arr [.obj [("value", .str "ann@example.com"), ("primary", .bool true)]])])⟩]

def staffing : List (Option PatchOperation) :=
  [some ⟨some "replace", some "displayName", some (.str "crew")⟩,
    some ⟨some "add", some "members", some (.arr [.obj [("value", .str "u")]])⟩,
    some ⟨some "remove", some "members[value eq \"v\"]", none⟩]

theorem patch_values_sent_iff_sample :
    (∀ a, FromRequest correction a
      (fieldOf ⟨some false, none, none, none, some (.str "ann@example.com"), none⟩ a)) ∧
      GroupFromRequest staffing ⟨some "crew", none, [.str "u"], [.str "v"]⟩ := by
  have huser : applyUserPatch correction =
      some ⟨some false, none, none, none, some (.str "ann@example.com"), none⟩ := rfl
  have hgroup : applyGroupPatch staffing = some ⟨some "crew", none, [.str "u"], [.str "v"]⟩ := rfl
  constructor
  · refine ((patch_values_sent_iff correction).1 _ huser).mpr fun a s hs => ?_
    cases a with
    | active =>
      cases hs
      exact ⟨false, rfl⟩
    | email =>
      cases hs
      exact fun w hw => Or.inr ⟨_, (Option.some.inj hw).symm⟩
    | _ => contradiction
  · refine ((patch_values_sent_iff staffing).2 _ hgroup).mpr ⟨fun c v hv => ?_, fun v hv => ?_⟩
    · cases c with
      | displayName =>
        cases hv
        exact ⟨"crew", rfl⟩
      | externalId => contradiction
    · have hmembers := applyGroupPatch_members hgroup v
      rw [← hmembers.1, ← hmembers.2] at hv
      rcases hv with hv | hv
      · exact ⟨"u", List.mem_singleton.mp hv⟩
      · exact ⟨"v", List.mem_singleton.mp hv⟩

/-- An operation without a value, and one that sends a string for a boolean
beside another boolean. -/
def missingValue (path : String) : List (Option PatchOperation) :=
  [some ⟨some "replace", some path, none⟩]

def deactivationText : List (Option PatchOperation) :=
  [some ⟨some "replace", none, some (.obj [("active", .str "False"),
    ("emails", .arr [.obj [("value", .str "ann@example.com"), ("primary", .bool true)]])])⟩]

/-- A user name and a display name are made of a missing value, and `"False"`
leaves a user active. -/
theorem coerced_values_stored :
    (applyUserPatch (missingValue "userName") =
        some ⟨none, some "undefined", none, none, none, none⟩ ∧
      ¬FromRequest (missingValue "userName") .userName (some (.str "undefined"))) ∧
    (applyUserPatch deactivationText =
        some ⟨some true, none, none, none, some (.str "ann@example.com"), none⟩ ∧
      ¬FromRequest deactivationText .active (some (.bool true))) ∧
    applyGroupPatch (missingValue "displayName") = some ⟨some "undefined", none, [], []⟩ ∧
      ¬GroupFromRequest (missingValue "displayName") ⟨some "undefined", none, [], []⟩ := by
  have hname : lastSent .userName (missingValue "userName") = some (.text none) := rfl
  have hactive : lastSent .active deactivationText = some (.truth (some (.str "False"))) := rfl
  have hcolumn : lastColumn .displayName (missingValue "displayName") = some none := rfl
  have husers : applyUserPatch (missingValue "userName") =
      some ⟨none, some "undefined", none, none, none, none⟩ := rfl
  have htext : applyUserPatch deactivationText =
      some ⟨some true, none, none, none, some (.str "ann@example.com"), none⟩ := rfl
  have hgroups : applyGroupPatch (missingValue "displayName") =
      some ⟨some "undefined", none, [], []⟩ := rfl
  refine ⟨⟨husers, fun h => ?_⟩, ⟨htext, fun h => ?_⟩, hgroups, fun h => ?_⟩
  · obtain ⟨t, ht⟩ := (fromRequest_iff husers hname).mp h
    contradiction
  · obtain ⟨b, hb⟩ := (fromRequest_iff htext hactive).mp h
    cases Option.some.inj hb
  · obtain ⟨t, ht⟩ := (group_fromRequest_iff hgroups).mp h |>.columns .displayName none hcolumn
    contradiction

end OktaScim.PatchProvenance
