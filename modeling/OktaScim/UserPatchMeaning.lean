import OktaScim.UserPatch
import OktaScim.LastWrites

/-!
What user PATCH operations say. An operation sends at most one value for each
attribute, to be stored as it is or after a conversion. The translation throws
exactly when one of these conversions does, and of several values that are sent
for an attribute it keeps the last.
-/
namespace OktaScim.UserPatchMeaning

open JsValues Bodies UserPatch LastWrites

section Operations

inductive Attribute : Type
  | active
  | userName
  | givenName
  | familyName
  | email
  | externalId
deriving DecidableEq

/-- A value and how it is stored: after `String()`, after `Boolean()`, or as it
is. `ofNull` is the property of a null that is read for a value. -/
inductive Sent : Type
  | text (value : Option Json)
  | truth (value : Option Json)
  | asIs (value : Option Json)
  | ofNull

/-- What is stored, unless an exception is thrown. -/
def Sent.stored : Sent → Option (Option Json)
  | .text value => (jsString value).map fun s => some (.str s)
  | .truth value => some (some (.bool (toBoolean value)))
  | .asIs value => some value
  | .ofNull => none

/-- A conversion always has a result. -/
theorem Sent.isSome_of_stored {s : Sent} {v : Option Json} (hs : ∀ w, s ≠ .asIs w)
    (h : s.stored = some v) : v.isSome = true := by
  cases s with
  | text value =>
    obtain ⟨t, _, rfl⟩ := Option.map_eq_some_iff.mp h
    rfl
  | truth value =>
    cases h
    rfl
  | asIs value => exact absurd rfl (hs value)
  | ofNull => contradiction

/-- `first.value ?? first` -/
def chosen (first : Json) : Json :=
  match first.get "value" with
  | none => first
  | some .null => first
  | some v => v

def emailSent (value : Option Json) : Option Sent :=
  match value with
  | some (.arr (.null :: _)) => some .ofNull
  | some (.arr (first :: _)) => some (.text (some (chosen first)))
  | some (.str s) => some (.asIs (some (.str s)))
  | _ => none

/-- The attribute that a path stands for and what is sent for it. -/
def pathSent (path : String) (value : Option Json) : Option (Attribute × Sent) :=
  match path with
  | "active" => some (.active, .truth value)
  | "userName" => some (.userName, .text value)
  | "name.givenName" => some (.givenName, .text value)
  | "name.familyName" => some (.familyName, .text value)
  | "externalId" => some (.externalId, .text value)
  | "emails" => (emailSent value).map fun s => (.email, s)
  | "emails[primary eq true].value" => (emailSent value).map fun s => (.email, s)
  | _ => none

/-- What the emails of an object without a path send. -/
def entrySent (emails : Option Json) : Option Sent :=
  match emails with
  | some (.arr (.null :: _)) => some .ofNull
  | some (.arr (first :: _)) => some (.asIs (first.get "value"))
  | _ => none

/-- What an object without a path sends for an attribute. -/
def objectSent (value : Json) : Attribute → Option Sent
  | .active => (value.get "active").map fun v => .truth (some v)
  | .userName => (value.get "userName").map fun v => .text (some v)
  | .externalId => (value.get "externalId").map fun v => .text (some v)
  | .givenName => ((value.get "name").bind fun n => n.get "givenName").map fun v => .asIs (some v)
  | .familyName => ((value.get "name").bind fun n => n.get "familyName").map fun v => .asIs (some v)
  | .email => entrySent (value.get "emails")

/-- What an operation sends for an attribute. -/
def sent (a : Attribute) (o : PatchOperation) : Option Sent :=
  let op := o.op.map toLowerCase
  if op ≠ some "replace" ∧ op ≠ some "add" then none
  else if nonempty o.path then
    ((pathSent (o.path.getD "") o.value).filter fun p => p.1 = a).map Prod.snd
  else
    match o.value with
    | some (.obj fields) => objectSent (.obj fields) a
    | _ => none

/-- How the values of an attribute are stored: some are always converted. -/
def Fits : Attribute → Sent → Prop
  | .active, s => ∃ v, s = .truth v
  | .userName, s => ∃ v, s = .text v
  | .externalId, s => ∃ v, s = .text v
  | _, s => ∀ v, s ≠ .truth v

theorem emailSent_fits {value : Option Json} {s : Sent} (h : emailSent value = some s) :
    Fits .email s := by
  unfold emailSent at h
  split at h <;> cases h <;> simp [Fits]

theorem pathSent_fits {path : String} {value : Option Json} {a : Attribute} {s : Sent}
    (h : pathSent path value = some (a, s)) : Fits a s := by
  unfold pathSent at h
  split at h
  · cases h
    exact ⟨_, rfl⟩
  · cases h
    exact ⟨_, rfl⟩
  · cases h
    simp [Fits]
  · cases h
    simp [Fits]
  · cases h
    exact ⟨_, rfl⟩
  · obtain ⟨s, hs, heq⟩ := Option.map_eq_some_iff.mp h
    cases heq
    exact emailSent_fits hs
  · obtain ⟨s, hs, heq⟩ := Option.map_eq_some_iff.mp h
    cases heq
    exact emailSent_fits hs
  · contradiction

theorem objectSent_fits {value : Json} {a : Attribute} {s : Sent}
    (h : objectSent value a = some s) : Fits a s := by
  cases a with
  | active =>
    obtain ⟨v, _, rfl⟩ := Option.map_eq_some_iff.mp h
    exact ⟨_, rfl⟩
  | userName =>
    obtain ⟨v, _, rfl⟩ := Option.map_eq_some_iff.mp h
    exact ⟨_, rfl⟩
  | externalId =>
    obtain ⟨v, _, rfl⟩ := Option.map_eq_some_iff.mp h
    exact ⟨_, rfl⟩
  | givenName =>
    obtain ⟨v, _, rfl⟩ := Option.map_eq_some_iff.mp h
    simp [Fits]
  | familyName =>
    obtain ⟨v, _, rfl⟩ := Option.map_eq_some_iff.mp h
    simp [Fits]
  | email =>
    simp only [objectSent, entrySent] at h
    split at h <;> cases h <;> simp [Fits]

/-- An operation sends by its path or by its object form. -/
theorem sent_cases {a : Attribute} {o : PatchOperation} {s : Sent} (h : sent a o = some s) :
    (∃ path, o.path = some path ∧ pathSent path o.value = some (a, s)) ∨
      ∃ fields, o.value = some (.obj fields) ∧ objectSent (.obj fields) a = some s := by
  unfold sent at h
  dsimp only at h
  split at h
  · contradiction
  split at h
  · rename_i hpath
    obtain ⟨⟨b, t⟩, hfilter, rfl⟩ := Option.map_eq_some_iff.mp h
    obtain ⟨hsent, hb⟩ := Option.filter_eq_some_iff.mp hfilter
    have hab : b = a := of_decide_eq_true hb
    cases hp : o.path with
    | none => simp [hp, nonempty] at hpath
    | some path =>
      rw [hp, hab] at hsent
      exact Or.inl ⟨path, rfl, hsent⟩
  · split at h
    · rename_i fields hv
      exact Or.inr ⟨fields, hv, h⟩
    · contradiction

theorem sent_fits {a : Attribute} {o : PatchOperation} {s : Sent} (h : sent a o = some s) :
    Fits a s := by
  rcases sent_cases h with ⟨path, _, hpath⟩ | ⟨fields, _, hobject⟩
  · exact pathSent_fits hpath
  · exact objectSent_fits hobject

/-- An attribute of the translation's result; `undefined` reads like absent. -/
def fieldOf (fields : UserPatchFields) : Attribute → Option Json
  | .active => fields.active.map .bool
  | .userName => fields.userName.map .str
  | .givenName => fields.givenName
  | .familyName => fields.familyName
  | .email => fields.email
  | .externalId => fields.externalId.map .str

/-- The result `r` writes what is sent over `fields`. -/
structure Writes (fields : UserPatchFields) (sent : Attribute → Option Sent)
    (r : Option UserPatchFields) : Prop where
  isSome : r.isSome = true ↔ ∀ a s, sent a = some s → s.stored.isSome = true
  fields : ∀ fields', r = some fields' → ∀ a,
    fieldOf fields' a = ((sent a).map fun s => s.stored.join).getD (fieldOf fields a)

theorem writes_nothing (fields : UserPatchFields) :
    Writes fields (fun _ => none) (some fields) where
  isSome := by simp
  fields fields' h a := by
    cases h
    rfl

/-- One value that cannot be converted fails the whole result. -/
theorem writes_none {fields : UserPatchFields} {sent : Attribute → Option Sent} {a : Attribute}
    {s : Sent} (ha : sent a = some s) (hs : s.stored = none) : Writes fields sent none where
  isSome := by
    simp only [Option.isSome_none, Bool.false_eq_true, false_iff, not_forall]
    exact ⟨a, s, ha, by simp [hs]⟩
  fields fields' h := by contradiction

/-- A result that sets one attribute. -/
theorem writes_one {fields : UserPatchFields} {b : Attribute} {s : Sent}
    {r : Option UserPatchFields} (hnone : s.stored = none → r = none)
    (hsome : ∀ v, s.stored = some v →
      ∃ fields', r = some fields' ∧
        ∀ a, fieldOf fields' a = if b = a then v else fieldOf fields a) :
    Writes fields (fun a => ((some (b, s)).filter fun p => p.1 = a).map Prod.snd) r := by
  have hsent : ∀ a, (((some (b, s)).filter fun p => p.1 = a).map Prod.snd) =
      if b = a then some s else none := by
    intro a
    by_cases h : b = a <;> simp [h]
  simp only [hsent]
  cases hs : s.stored with
  | none =>
    rw [hnone hs]
    exact writes_none (if_pos rfl) hs
  | some v =>
    obtain ⟨fields', rfl, hfields⟩ := hsome v hs
    refine ⟨?_, ?_⟩
    · simp only [Option.isSome_some, true_iff]
      intro a s' h
      split at h
      · cases h
        rw [hs]
        rfl
      · contradiction
    · intro fields'' h a
      cases h
      rw [hfields a]
      split
      · simp [hs]
      · rfl

/-- A result that sets one attribute to a text. -/
theorem writes_text {fields : UserPatchFields} (b : Attribute) (value : Option Json)
    (set : String → UserPatchFields)
    (hset : ∀ t a, fieldOf (set t) a = if b = a then some (.str t) else fieldOf fields a) :
    Writes fields (fun a => ((some (b, Sent.text value)).filter fun p => p.1 = a).map Prod.snd)
      ((jsString value).map set) := by
  refine writes_one ?_ ?_
  · intro h
    rw [Sent.stored, Option.map_eq_none_iff] at h
    rw [h]
    rfl
  · intro v h
    obtain ⟨t, ht, rfl⟩ := Option.map_eq_some_iff.mp h
    exact ⟨set t, by rw [ht]; rfl, hset t⟩

theorem applyEmails_writes (fields : UserPatchFields) (value : Option Json) :
    Writes fields
      (fun a => (((emailSent value).map fun s => (Attribute.email, s)).filter
        fun p => p.1 = a).map Prod.snd)
      (applyValueForPath.applyEmails fields value) := by
  have htext : ∀ first : Json,
      Writes fields
        (fun a => ((some (Attribute.email, Sent.text (some (chosen first)))).filter
          fun p => p.1 = a).map Prod.snd)
        ((jsString (some (chosen first))).map fun s => { fields with email := some (.str s) }) :=
    fun first => writes_text .email _ _ fun t a => by cases a <;> rfl
  cases value with
  | none => exact writes_nothing fields
  | some v =>
    cases v with
    | str t =>
      refine writes_one (fun h => by cases h) fun v h => ?_
      cases h
      exact ⟨_, rfl, fun a => by cases a <;> rfl⟩
    | arr items =>
      cases items with
      | nil => exact writes_nothing fields
      | cons first rest =>
        cases first with
        | null => exact writes_one (fun _ => rfl) fun v h => by cases h
        | bool b => exact htext (.bool b)
        | num n => exact htext (.num n)
        | str t => exact htext (.str t)
        | arr entries => exact htext (.arr entries)
        | obj entries => exact htext (.obj entries)
    | null => exact writes_nothing fields
    | bool b => exact writes_nothing fields
    | num n => exact writes_nothing fields
    | obj entries => exact writes_nothing fields

theorem pathSent_other {path : String} {value : Option Json}
    (h : path ∉ ["active", "userName", "name.givenName", "name.familyName", "externalId", "emails",
      "emails[primary eq true].value"]) : pathSent path value = none := by
  simp only [List.mem_cons, List.not_mem_nil, or_false, not_or] at h
  unfold pathSent
  split <;> simp_all

theorem applyValueForPath_writes (fields : UserPatchFields) (path : String)
    (value : Option Json) :
    Writes fields (fun a => ((pathSent path value).filter fun p => p.1 = a).map Prod.snd)
      (applyValueForPath fields path value) := by
  unfold applyValueForPath
  split
  · refine writes_one (fun h => by cases h) fun v h => ?_
    cases h
    exact ⟨_, rfl, fun a => by cases a <;> rfl⟩
  · exact writes_text .userName _ _ fun t a => by cases a <;> rfl
  · exact writes_text .givenName _ _ fun t a => by cases a <;> rfl
  · exact writes_text .familyName _ _ fun t a => by cases a <;> rfl
  · exact writes_text .externalId _ _ fun t a => by cases a <;> rfl
  · exact applyEmails_writes fields value
  · exact applyEmails_writes fields value
  · rw [pathSent_other (by simp_all)]
    exact writes_nothing fields

/-- `if (k in value)` with a conversion to a string. -/
theorem assignString_sent (value : Json) (k : String) (target : Option String) :
    (assignString value k target).map (Option.map Json.str) =
      ((value.get k).map fun v => Sent.text (some v)).elim (some (target.map .str))
        Sent.stored := by
  unfold assignString Json.has
  cases value.get k with
  | none => rfl
  | some v =>
    simp only [Option.isSome_some, if_true, Option.map_some, Option.elim_some, Sent.stored,
      Option.map_map]
    rfl

/-- The email after an object form; `none` is a thrown `TypeError`. -/
def entryEmail (emails email : Option Json) : Option (Option Json) :=
  match emails with
  | some (.arr (.null :: _)) => none
  | some (.arr (first :: _)) => some (first.get "value")
  | _ => some email

theorem entryEmail_sent (emails email : Option Json) :
    entryEmail emails email = (entrySent emails).elim (some email) Sent.stored := by
  cases emails with
  | none => rfl
  | some v =>
    cases v with
    | arr items =>
      cases items with
      | nil => rfl
      | cons first rest => cases first <;> rfl
    | _ => rfl

theorem applyValueObject_eq (fields : UserPatchFields) (value : Json) :
    applyValueObject fields value =
      (assignString value "userName" fields.userName).bind fun userName =>
        (assignString value "externalId" fields.externalId).bind fun externalId =>
          (entryEmail (value.get "emails") fields.email).bind fun email => some {
            active :=
              if value.has "active" then some (toBoolean (value.get "active")) else fields.active
            userName := userName
            givenName := ((value.get "name").bind fun n => n.get "givenName").or fields.givenName
            familyName :=
              ((value.get "name").bind fun n => n.get "familyName").or fields.familyName
            email := email
            externalId := externalId } := by
  unfold applyValueObject entryEmail
  simp only [Option.bind_eq_bind]
  refine congrArg _ (funext fun userName => congrArg _ (funext fun externalId => ?_))
  cases value.get "emails" with
  | none => rfl
  | some v =>
    cases v with
    | arr items =>
      cases items with
      | nil => rfl
      | cons first rest => cases first <;> rfl
    | _ => rfl

/-- What a step does to one attribute, as a value that may be missing. -/
theorem getD_of_elim {s : Option Sent} {old new : Option Json}
    (h : s.elim (some old) Sent.stored = some new) :
    (∀ t, s = some t → t.stored.isSome = true) ∧ new = (s.map fun s => s.stored.join).getD old := by
  cases s with
  | none =>
    injection h with h
    exact ⟨fun t ht => by contradiction, h.symm⟩
  | some t =>
    have ht : t.stored = some new := h
    refine ⟨fun t' ht' => ?_, ?_⟩
    · cases ht'
      rw [ht]
      rfl
    · simp [ht]

theorem exists_of_elim {s : Option Sent} {old : Option Json}
    (h : s.elim (some old) Sent.stored = none) : ∃ t, s = some t ∧ t.stored = none := by
  cases s with
  | none => contradiction
  | some t => exact ⟨t, rfl, h⟩

/-- A result whose attributes are each what is sent for them, or the old value. -/
theorem writes_of_elim {fields : UserPatchFields} {sent : Attribute → Option Sent}
    {r : Option UserPatchFields}
    (hnone : r = none → ∃ a, (sent a).elim (some (fieldOf fields a)) Sent.stored = none)
    (hsome : ∀ fields', r = some fields' →
      ∀ a, (sent a).elim (some (fieldOf fields a)) Sent.stored = some (fieldOf fields' a)) :
    Writes fields sent r := by
  cases hr : r with
  | none =>
    obtain ⟨a, ha⟩ := hnone hr
    obtain ⟨s, hs, hstored⟩ := exists_of_elim ha
    exact writes_none hs hstored
  | some fields' =>
    have hall := hsome fields' hr
    refine ⟨?_, ?_⟩
    · simp only [Option.isSome_some, true_iff]
      exact fun a => (getD_of_elim (hall a)).1
    · intro fields'' h a
      cases h
      exact (getD_of_elim (hall a)).2

theorem applyValueObject_writes (fields : UserPatchFields) (value : Json) :
    Writes fields (fun a => objectSent value a) (applyValueObject fields value) := by
  have huserName := assignString_sent value "userName" fields.userName
  have hexternalId := assignString_sent value "externalId" fields.externalId
  have hemail := entryEmail_sent (value.get "emails") fields.email
  refine writes_of_elim (fun h => ?_) (fun fields' h a => ?_)
  · rw [applyValueObject_eq] at h
    cases hu : assignString value "userName" fields.userName with
    | none =>
      rw [hu] at huserName
      exact ⟨.userName, huserName.symm⟩
    | some userName =>
      cases hx : assignString value "externalId" fields.externalId with
      | none =>
        rw [hx] at hexternalId
        exact ⟨.externalId, hexternalId.symm⟩
      | some externalId =>
        refine ⟨.email, hemail.symm.trans ?_⟩
        rw [hu, hx] at h
        cases he : entryEmail (value.get "emails") fields.email with
        | none => rfl
        | some email =>
          rw [he] at h
          contradiction
  · rw [applyValueObject_eq] at h
    obtain ⟨userName, hu, h⟩ := Option.bind_eq_some_iff.mp h
    obtain ⟨externalId, hx, h⟩ := Option.bind_eq_some_iff.mp h
    obtain ⟨email, he, h⟩ := Option.bind_eq_some_iff.mp h
    cases h
    rw [hu] at huserName
    rw [hx] at hexternalId
    rw [he] at hemail
    cases a with
    | userName => exact huserName.symm
    | externalId => exact hexternalId.symm
    | email => exact hemail.symm
    | active =>
      cases hget : value.get "active" <;> simp [fieldOf, objectSent, Json.has, hget, Sent.stored]
    | givenName =>
      cases hget : (value.get "name").bind fun n => n.get "givenName" <;>
        simp [fieldOf, objectSent, hget, Sent.stored]
    | familyName =>
      cases hget : (value.get "name").bind fun n => n.get "familyName" <;>
        simp [fieldOf, objectSent, hget, Sent.stored]

/-- An operation writes what it sends, and throws where that does. -/
theorem applyUserOperation_writes (fields : UserPatchFields) (o : PatchOperation) :
    Writes fields (fun a => sent a o) (applyUserOperation fields o) := by
  unfold applyUserOperation sent
  dsimp only
  split
  · exact writes_nothing fields
  split
  · exact applyValueForPath_writes fields _ o.value
  cases o.value with
  | none => exact writes_nothing fields
  | some v =>
    cases v with
    | obj entries => exact applyValueObject_writes fields (.obj entries)
    | arr items =>
      have hnone : (fun a => objectSent (.arr items) a) = fun _ => none := by
        funext a
        cases a <;> rfl
      have harr := applyValueObject_writes fields (.arr items)
      rwa [hnone] at harr
    | null => exact writes_nothing fields
    | bool b => exact writes_nothing fields
    | num n => exact writes_nothing fields
    | str t => exact writes_nothing fields

end Operations

section Lists

/-- What an entry of the list sends; a null sends nothing, and throws. -/
def sentBy (a : Attribute) (o : Option PatchOperation) : Option Sent := o.bind (sent a)

/-- What the last operation that sends something for the attribute sends. -/
def lastSent (a : Attribute) (ops : List (Option PatchOperation)) : Option Sent :=
  lastWrite (sentBy a) ops

/-- The entry is an operation, and what it sends can be converted. -/
def Converts (o : Option PatchOperation) : Prop :=
  ∃ p, o = some p ∧ ∀ a s, sent a p = some s → s.stored.isSome = true

theorem applyUserOperations_eq (fields : UserPatchFields) (ops : List (Option PatchOperation)) :
    applyUserOperations fields ops =
      ops.foldlM (fun fields o => o.bind (applyUserOperation fields)) fields :=
  eq_foldlM_of_cons applyUserOperations (fun _ => rfl) (fun _ _ => rfl) (fun _ _ _ => rfl)
    fields ops

theorem applyUserPatch_isSome (ops : List (Option PatchOperation)) :
    (applyUserPatch ops).isSome = true ↔ ∀ o ∈ ops, Converts o := by
  rw [applyUserPatch, applyUserOperations_eq]
  refine foldlM_isSome (fun fields o => ?_) ops _
  cases o with
  | none => simp [Converts]
  | some p => simp [Converts, (applyUserOperation_writes fields p).isSome]

/-- Every attribute of the result is what was last sent for it, converted. -/
theorem applyUserPatch_field {ops : List (Option PatchOperation)} {fields : UserPatchFields}
    (h : applyUserPatch ops = some fields) (a : Attribute) :
    fieldOf fields a = (lastSent a ops).bind fun s => s.stored.join := by
  rw [applyUserPatch, applyUserOperations_eq] at h
  have hview := foldlM_view (fun f => fieldOf f a) (sentBy a) (fun s => s.stored.join)
    (fun f o f' hf => ?_) h
  · have hinitial : fieldOf ⟨none, none, none, none, none, none⟩ a = none := by
      cases a <;> rfl
    rw [hview, hinitial, lastSent]
    cases lastWrite (sentBy a) ops <;> rfl
  · cases o with
    | none => contradiction
    | some p => exact (applyUserOperation_writes f p).fields f' hf a

variable {ops : List (Option PatchOperation)} {f : UserPatchFields}

theorem lastSent_append (a : Attribute) (ops₁ ops₂ : List (Option PatchOperation)) :
    lastSent a (ops₁ ++ ops₂) = (lastSent a ops₂).or (lastSent a ops₁) :=
  lastWrite_append _ ops₁ ops₂

/-- What is sent in a translated list could be converted. -/
theorem stored_of_lastSent (h : applyUserPatch ops = some f) {a : Attribute} {s : Sent}
    (hs : lastSent a ops = some s) : s.stored = some (fieldOf f a) := by
  obtain ⟨o, ho, hsent⟩ := mem_of_lastWrite hs
  obtain ⟨p, rfl, hp⟩ := (applyUserPatch_isSome ops).mp (by rw [h]; rfl) o ho
  obtain ⟨v, hv⟩ := Option.isSome_iff_exists.mp (hp a s hsent)
  rw [applyUserPatch_field h a, hs, Option.bind_some, hv]
  rfl

theorem field_of_nothing_sent (h : applyUserPatch ops = some f) {a : Attribute}
    (hs : lastSent a ops = none) : fieldOf f a = none := by
  rw [applyUserPatch_field h a, hs]
  rfl

end Lists

end OktaScim.UserPatchMeaning
