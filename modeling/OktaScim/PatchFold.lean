import OktaScim.PatchForms

/-!
A user PATCH as a fold over the stored attributes, in which add and replace set
an attribute and remove clears it. The code skips removals and does not know
the path `name`; it leaves the fold of the operations that it handles.
-/
namespace OktaScim.PatchFold

open Programs Schema KeyedRows JsValues PrismaClient PrismaConstraints Bodies UserPatch
open UserPatchMeaning PatchTranslation PatchComposition PatchForms LastWrites Requests
open RequestPrograms UserUpdates

section Reference

/-- The content of each attribute; a cleared one has none. -/
abbrev Content := Attribute → Option Json

def contentOf (u : ScimUser) : Content
  | .active => some (.bool u.active)
  | a => (storedText u a).map .str

/-- The attributes that a path names. -/
def attributesAt : String → List Attribute
  | "active" => [.active]
  | "userName" => [.userName]
  | "externalId" => [.externalId]
  | "name" => [.givenName, .familyName]
  | "name.givenName" => [.givenName]
  | "name.familyName" => [.familyName]
  | "emails" => [.email]
  | _ => []

/-- The text of the one entry of an array of emails. -/
def entryText : Json → Option Json
  | .arr [entry] => entry.get "value"
  | _ => none

/-- What an object gives for an attribute. -/
def given (v : Json) : Attribute → Option Json
  | .active => v.get "active"
  | .userName => v.get "userName"
  | .externalId => v.get "externalId"
  | .givenName => (v.get "name").bind fun n => n.get "givenName"
  | .familyName => (v.get "name").bind fun n => n.get "familyName"
  | .email => (v.get "emails").bind entryText

/-- What a value at a path gives for an attribute. -/
def givenAt (p : String) (v : Json) (a : Attribute) : Option Json :=
  if a ∈ attributesAt p then
    match p, a with
    | "name", .givenName => v.get "givenName"
    | "name", .familyName => v.get "familyName"
    | "emails", _ => entryText v
    | _, _ => some v
  else none

/-- The new content that an operation asks for, if it is one on the attribute. -/
def asked (a : Attribute) (o : PatchOperation) : Option (Option Json) :=
  if o.op.map toLowerCase = some "remove" then
    match o.path with
    | some p => if a ∈ attributesAt p then some none else none
    | none => (o.value.bind fun v => given v a).map fun _ => none
  else
    match o.path with
    | some p => (o.value.bind fun v => givenAt p v a).map some
    | none => (o.value.bind fun v => given v a).map some

def applyAsked (c : Content) (o : PatchOperation) : Content := fun a => (asked a o).getD (c a)

/-- The operations as they are meant: each is applied to what the ones before
it have left. -/
def reference (c : Content) (ops : List PatchOperation) : Content := ops.foldl applyAsked c

theorem reference_eq (c : Content) (ops : List PatchOperation) (a : Attribute) :
    reference c ops a = (lastWrite (asked a) ops).getD (c a) := by
  rw [← foldl_lastWrite]
  unfold reference
  induction ops generalizing c with
  | nil => rfl
  | cons o ops ih => exact ih (applyAsked c o)

end Reference

section WellTyped

def Sets (op : String) : Prop := toLowerCase op = "add" ∨ toLowerCase op = "replace"

def TextOrMissing (v : Option Json) : Prop := ∀ w, v = some w → ∃ t, w = .str t

/-- An object of strings for the parts of a name. -/
def TypedName (v : Json) : Prop :=
  (∃ fields, v = .obj fields) ∧ TextOrMissing (v.get "givenName") ∧
    TextOrMissing (v.get "familyName")

/-- One entry with a string. -/
def TypedEmails (v : Json) : Prop :=
  ∃ fields t, v = .arr [.obj fields] ∧ (Json.obj fields).get "value" = some (.str t)

def TypedAt (p : String) (v : Json) : Prop :=
  (p = "active" ∧ ∃ b, v = .bool b) ∨ (p ∈ textPaths ∧ ∃ t, v = .str t) ∨
    (p = "name" ∧ TypedName v) ∨ (p = "emails" ∧ TypedEmails v)

structure TypedObject (v : Json) : Prop where
  active : ∀ w, v.get "active" = some w → ∃ b, w = .bool b
  userName : TextOrMissing (v.get "userName")
  externalId : TextOrMissing (v.get "externalId")
  name : ∀ w, v.get "name" = some w → TypedName w
  emails : ∀ w, v.get "emails" = some w → TypedEmails w

/-- Paths of attributes that can be removed. -/
def removable : List String :=
  ["externalId", "name", "name.givenName", "name.familyName", "emails"]

/-- The operations that a client of the stored attributes sends. -/
inductive WellTyped : PatchOperation → Prop
  | setPath {op p : String} {v : Json} (sets : Sets op) (typed : TypedAt p v) :
      WellTyped ⟨some op, some p, some v⟩
  | setObject {op : String} {fields : List (String × Json)} (sets : Sets op)
      (typed : TypedObject (.obj fields)) : WellTyped ⟨some op, none, some (.obj fields)⟩
  | removePath {op p : String} {value : Option Json} (removes : toLowerCase op = "remove")
      (path : p ∈ removable) : WellTyped ⟨some op, some p, value⟩
  | removeObject {op : String} {fields : List (String × Json)} (removes : toLowerCase op = "remove")
      (typed : TypedObject (.obj fields)) (active : (Json.obj fields).get "active" = none)
      (userName : (Json.obj fields).get "userName" = none) :
      WellTyped ⟨some op, none, some (.obj fields)⟩

/-- The code does something for the operation: it is no removal, and its path
is not `name`. -/
def handled (o : PatchOperation) : Bool :=
  o.op.map toLowerCase != some "remove" && o.path != some "name"

end WellTyped

section Sending

variable {a : Attribute}

theorem Sets.replaces {op : String} (sets : Sets op) (path : Option String) (value : Option Json) :
    Replaces ⟨some op, path, value⟩ := by
  simpa [Replaces, Sets, or_comm] using sets

theorem Sets.ne_remove {op : String} (sets : Sets op) : toLowerCase op ≠ "remove" := by
  rcases sets with hop | hop <;> rw [hop] <;> decide

/-- What a well-typed value sends at a path the code knows is what is given. -/
theorem pathSent_typed {p : String} {v : Json} (typed : TypedAt p v) (hname : p ≠ "name") :
    (((pathSent p (some v)).filter fun q => q.1 = a).map Prod.snd).map Sent.stored =
      ((givenAt p v a).map fun w => some (some w)) := by
  rcases typed with ⟨rfl, b, rfl⟩ | ⟨hp, t, rfl⟩ | ⟨rfl, _⟩ | ⟨rfl, fields, t, rfl, hvalue⟩
  · cases a <;> rfl
  · simp only [textPaths, List.mem_cons, List.not_mem_nil, or_false] at hp
    rcases hp with rfl | rfl | rfl | rfl <;> cases a <;>
      simp [pathSent, givenAt, attributesAt, Sent.stored, jsString]
  · exact absurd rfl hname
  · cases a <;>
      simp [pathSent, givenAt, attributesAt, emailSent, chosen, entryText, hvalue, Sent.stored,
        jsString]

theorem objectSent_typed {fields : List (String × Json)} (typed : TypedObject (.obj fields)) :
    (objectSent (.obj fields) a).map Sent.stored =
      ((given (.obj fields) a).map fun w => some (some w)) := by
  cases a with
  | active =>
    unfold objectSent given
    cases hget : (Json.obj fields).get "active" with
    | none => rfl
    | some w =>
      obtain ⟨b, rfl⟩ := typed.active w hget
      rfl
  | userName =>
    unfold objectSent given
    cases hget : (Json.obj fields).get "userName" with
    | none => rfl
    | some w =>
      obtain ⟨t, rfl⟩ := typed.userName w hget
      simp [Sent.stored, jsString]
  | externalId =>
    unfold objectSent given
    cases hget : (Json.obj fields).get "externalId" with
    | none => rfl
    | some w =>
      obtain ⟨t, rfl⟩ := typed.externalId w hget
      simp [Sent.stored, jsString]
  | givenName => rw [objectSent, given, Option.map_map]; rfl
  | familyName => rw [objectSent, given, Option.map_map]; rfl
  | email =>
    unfold objectSent given entrySent
    cases hget : (Json.obj fields).get "emails" with
    | none => rfl
    | some w =>
      obtain ⟨entry, t, rfl, hvalue⟩ := typed.emails w hget
      simp [entryText, hvalue, Sent.stored]

/-- What a well-typed operation sends is what it asks for, if it is handled. -/
theorem sent_typed {o : PatchOperation} (typed : WellTyped o) :
    (sent a o).map Sent.stored = (if handled o then asked a o else none).map some := by
  cases typed with
  | @setPath op p v sets typed =>
    have hremove := sets.ne_remove
    have hne : p ≠ "" := by
      rintro rfl
      rcases typed with ⟨h, _⟩ | ⟨h, _⟩ | ⟨h, _⟩ | ⟨h, _⟩ <;> revert h <;> decide
    by_cases hname : p = "name"
    · subst hname
      rw [sent_path (sets.replaces _ _) rfl hne]
      simp [handled, pathSent]
    · rw [sent_path (sets.replaces _ _) rfl hne]
      dsimp only
      rw [pathSent_typed typed hname]
      simp [handled, asked, hremove, hname, Function.comp_def]
  | @setObject op fields sets typed =>
    have hremove := sets.ne_remove
    rw [sent_object (sets.replaces _ _) rfl rfl, objectSent_typed typed]
    simp [handled, asked, hremove, Function.comp_def]
  | @removePath op p value removes path =>
    rw [sent_skipped (by simp [Replaces, removes])]
    simp [handled, removes]
  | @removeObject op fields removes typed active userName =>
    rw [sent_skipped (by simp [Replaces, removes])]
    simp [handled, removes]

end Sending

section Rows

variable {a : Attribute} {ops : List PatchOperation}

theorem lastSent_typed (typed : ∀ o ∈ ops, WellTyped o) :
    (lastSent a (ops.map some)).map Sent.stored =
      (lastWrite (asked a) (ops.filter handled)).map some := by
  rw [lastWrite_filter, ← lastWrite_map, lastSent, ← lastWrite_map]
  unfold lastWrite
  rw [List.filterMap_map]
  exact congrArg _ (List.filterMap_congr fun o ho => sent_typed (typed o ho))

theorem givenAt_text {p : String} {v w : Json} (ha : Loose a) (typed : TypedAt p v)
    (h : givenAt p v a = some w) : ∃ t, w = .str t := by
  rcases typed with ⟨rfl, b, rfl⟩ | ⟨hp, t, rfl⟩ | ⟨rfl, _, hgiven, hfamily⟩ |
    ⟨rfl, fields, t, rfl, hvalue⟩
  · rcases ha with rfl | rfl | rfl <;> simp [givenAt, attributesAt] at h
  · simp only [textPaths, List.mem_cons, List.not_mem_nil, or_false] at hp
    refine ⟨t, ?_⟩
    rcases hp with rfl | rfl | rfl | rfl <;> rcases ha with rfl | rfl | rfl <;>
      simp_all [givenAt, attributesAt]
  · rcases ha with rfl | rfl | rfl
    · exact hgiven w h
    · exact hfamily w h
    · simp [givenAt, attributesAt] at h
  · refine ⟨t, ?_⟩
    rcases ha with rfl | rfl | rfl <;> simp_all [givenAt, attributesAt, entryText]

theorem given_text {v w : Json} (ha : Loose a) (typed : TypedObject v) (h : given v a = some w) :
    ∃ t, w = .str t := by
  rcases ha with rfl | rfl | rfl
  · obtain ⟨name, hname, hw⟩ := Option.bind_eq_some_iff.mp h
    exact (typed.name name hname).2.1 w hw
  · obtain ⟨name, hname, hw⟩ := Option.bind_eq_some_iff.mp h
    exact (typed.name name hname).2.2 w hw
  · obtain ⟨emails, hemails, hw⟩ := Option.bind_eq_some_iff.mp h
    obtain ⟨fields, t, rfl, hvalue⟩ := typed.emails emails hemails
    exact ⟨t, Option.some.inj (hw.symm.trans hvalue)⟩

/-- A handled operation sets what it asks for; in the loose columns, a text. -/
theorem asked_handled {o : PatchOperation} {e : Option Json} (typed : WellTyped o)
    (hhandled : handled o = true) (hasked : asked a o = some e) :
    ∃ w, e = some w ∧ (Loose a → ∃ t, w = .str t) := by
  cases typed with
  | @setPath op p v sets typed =>
    have hremove := sets.ne_remove
    simp only [asked, Option.map_some, Option.some.injEq, hremove, if_false, Option.bind_some]
      at hasked
    obtain ⟨w, hw, rfl⟩ := Option.map_eq_some_iff.mp hasked
    exact ⟨w, rfl, fun ha => givenAt_text ha typed hw⟩
  | @setObject op fields sets typed =>
    have hremove := sets.ne_remove
    simp only [asked, Option.map_some, Option.some.injEq, hremove, if_false, Option.bind_some]
      at hasked
    obtain ⟨w, hw, rfl⟩ := Option.map_eq_some_iff.mp hasked
    exact ⟨w, rfl, fun ha => given_text ha typed hw⟩
  | removePath removes path => simp [handled, removes] at hhandled
  | removeObject removes typed active userName => simp [handled, removes] at hhandled

variable {E : Engine} {f : UserPatchFields} {upd : UserUpdate} {u : ScimUser} {now : ℕ}

/-- A column that is written a text, or nothing. -/
theorem writeColumn_text {w : Option Json} {x : Nullable String} {old : Option String}
    (hx : updateColumn E w = some x) (hw : w = none ∨ ∃ t, w = some (.str t)) :
    (writeColumn x old).map Json.str = w.or (old.map .str) := by
  rcases hw with rfl | ⟨t, rfl⟩
  · cases hx
    rfl
  · rw [updateColumn, E.update_str, Option.some.injEq] at hx
    subst hx
    rfl

/-- The content of the row that is left, by the fields of the translation. -/
theorem contentOf_apply (hread : (UsersService.patchData f).read E = some upd)
    (htexts : ∀ a, Loose a → fieldOf f a = none ∨ ∃ t, fieldOf f a = some (.str t)) :
    contentOf (upd.apply now u) a = (fieldOf f a).or (contentOf u a) := by
  obtain ⟨hname, hactive, hx, hg, hf, he⟩ := read_patchFields hread
  cases a with
  | active =>
    simp only [contentOf, UserUpdate.apply, hactive, fieldOf]
    cases f.active <;> rfl
  | userName =>
    simp only [contentOf, storedText, UserUpdate.apply, hname, fieldOf]
    cases f.userName <;> rfl
  | externalId =>
    refine writeColumn_text hx ?_
    unfold fieldOf
    cases f.externalId with
    | none => exact Or.inl rfl
    | some t => exact Or.inr ⟨t, rfl⟩
  | givenName => exact writeColumn_text hg (htexts _ (Or.inl rfl))
  | familyName => exact writeColumn_text hf (htexts _ (Or.inr (Or.inl rfl)))
  | email => exact writeColumn_text he (htexts _ (Or.inr (Or.inr rfl)))

/-- The translation's fields are what the handled operations ask for last. -/
theorem fieldOf_typed (typed : ∀ o ∈ ops, WellTyped o) (hf : applyUserPatch (ops.map some) = some f)
    (a : Attribute) : fieldOf f a = (lastWrite (asked a) (ops.filter handled)).join :=
  calc fieldOf f a = ((lastSent a (ops.map some)).map Sent.stored).bind Option.join := by
        rw [applyUserPatch_field hf, Option.bind_map]
        rfl
    _ = (lastWrite (asked a) (ops.filter handled)).join := by
        rw [lastSent_typed typed, Option.bind_map]
        rfl

theorem asked_last (typed : ∀ o ∈ ops, WellTyped o) {e : Option Json}
    (h : lastWrite (asked a) (ops.filter handled) = some e) :
    ∃ w, e = some w ∧ (Loose a → ∃ t, w = .str t) := by
  obtain ⟨o, ho, hasked⟩ := mem_of_lastWrite h
  obtain ⟨hmem, hhandled⟩ := List.mem_filter.mp ho
  exact asked_handled (typed o hmem) hhandled hasked

end Rows

section Folds

variable {env : Env} {ticks : ℕ → Tick} {id : String} {ops : List PatchOperation} {s s' : Store}
  {u u' : ScimUser} {answer : Answer}

/-- A PATCH that succeeds leaves the fold of the operations that it handles. -/
theorem patch_leaves_handled (typed : ∀ o ∈ ops, WellTyped o) (hu : s.user id = some u)
    (h : serve env ticks (.patchUser id (ops.map some)) s = (.ok answer, s'))
    (hu' : s'.user id = some u') (a : Attribute) :
    contentOf u' a = reference (contentOf u) (ops.filter handled) a := by
  obtain ⟨f, upd, u₀, hf, hread, hu₀, _, rfl⟩ := patchUser_ok h
  cases hu.symm.trans hu₀
  rw [user_after_update hu, Option.some.injEq] at hu'
  have htexts : ∀ a, Loose a → fieldOf f a = none ∨ ∃ t, fieldOf f a = some (.str t) := by
    intro a ha
    rw [fieldOf_typed typed hf]
    cases hlast : lastWrite (asked a) (ops.filter handled) with
    | none => exact Or.inl rfl
    | some e =>
      obtain ⟨w, rfl, htext⟩ := asked_last typed hlast
      obtain ⟨t, rfl⟩ := htext ha
      exact Or.inr ⟨t, rfl⟩
  rw [← hu', contentOf_apply hread htexts, fieldOf_typed typed hf, reference_eq]
  cases hlast : lastWrite (asked a) (ops.filter handled) with
  | none => rfl
  | some e =>
    obtain ⟨w, rfl, _⟩ := asked_last typed hlast
    rfl

/-- Where an operation that is not handled is the last one on an attribute, it
asks for what the handled operations before it leave. -/
def SkipsNothing (c : Content) (ops : List PatchOperation) : Prop :=
  ∀ a before o after, ops = before ++ o :: after → handled o = false →
    (∀ p ∈ after, asked a p = none) → ∀ e, asked a o = some e →
      e = reference c (before.filter handled) a

/-- The handled operations alone have the effect of all exactly where nothing
that matters is skipped. -/
theorem reference_filter_iff (c : Content) (ops : List PatchOperation) :
    (∀ a, reference c (ops.filter handled) a = reference c ops a) ↔ SkipsNothing c ops := by
  have hskipped : ∀ a before o after, handled o = false → (∀ p ∈ after, asked a p = none) →
      reference c ((before ++ o :: after).filter handled) a =
        reference c (before.filter handled) a := by
    intro a before o after ho hafter
    have hnone : lastWrite (asked a) (after.filter handled) = none :=
      lastWrite_eq_none_iff.mpr fun p hp => hafter p (List.mem_of_mem_filter hp)
    rw [reference_eq, reference_eq, List.filter_append, List.filter_cons_of_neg (by simp [ho]),
      lastWrite_append, hnone, Option.none_or]
  constructor
  · intro h a before o after hops ho hafter e he
    have hlast : lastWrite (asked a) ops = some e :=
      lastWrite_eq_some_iff.mpr ⟨before, o, after, hops, he, hafter⟩
    have hsame := h a
    rw [reference_eq c ops, hlast, Option.getD_some, hops, hskipped a before o after ho hafter]
      at hsame
    exact hsame.symm
  · intro h a
    rw [reference_eq c ops]
    cases hlast : lastWrite (asked a) ops with
    | none =>
      have hnone : lastWrite (asked a) (ops.filter handled) = none :=
        lastWrite_eq_none_iff.mpr fun p hp =>
          lastWrite_eq_none_iff.mp hlast p (List.mem_of_mem_filter hp)
      rw [reference_eq, hnone]
    | some e =>
      obtain ⟨before, o, after, hops, he, hafter⟩ := lastWrite_eq_some_iff.mp hlast
      cases ho : handled o with
      | false =>
        rw [hops, hskipped a before o after ho hafter]
        exact (h a before o after hops ho hafter e he).symm
      | true =>
        have hlast' : lastWrite (asked a) (ops.filter handled) = some e := by
          refine lastWrite_eq_some_iff.mpr
            ⟨before.filter handled, o, after.filter handled, ?_, he,
              fun p hp => hafter p (List.mem_of_mem_filter hp)⟩
          rw [hops, List.filter_append, List.filter_cons_of_pos ho]
        rw [reference_eq, hlast']

/-- A PATCH that succeeds has applied every operation exactly where nothing
that matters is skipped. -/
theorem patch_folds_iff (typed : ∀ o ∈ ops, WellTyped o) (hu : s.user id = some u)
    (h : serve env ticks (.patchUser id (ops.map some)) s = (.ok answer, s'))
    (hu' : s'.user id = some u') :
    (∀ a, contentOf u' a = reference (contentOf u) ops a) ↔ SkipsNothing (contentOf u) ops := by
  rw [← reference_filter_iff]
  simp only [patch_leaves_handled typed hu h hu']

def removeExternalId : PatchOperation := ⟨some "remove", some "externalId", none⟩

def setGivenName : PatchOperation :=
  ⟨some "replace", some "name", some (.obj [("givenName", .str "Ann")])⟩

def removeEmail : PatchOperation := ⟨some "remove", some "emails", none⟩

def setEmailEntry (op email : String) : PatchOperation :=
  ⟨some op, some "emails", some (.arr [.obj [("value", .str email)]])⟩

/-- An email is set, removed and set to another one. -/
def emailTurns : List PatchOperation :=
  [setEmailEntry "Add" "a@b", removeEmail, setEmailEntry "replace" "c@d"]

theorem emailTurns_typed : ∀ o ∈ emailTurns, WellTyped o := by
  have hset : ∀ op email, toLowerCase op = "add" ∨ toLowerCase op = "replace" →
      WellTyped (setEmailEntry op email) := fun op email hop =>
    .setPath hop
      (Or.inr (Or.inr (Or.inr ⟨rfl, _, email, rfl, rfl⟩)))
  intro o ho
  simp only [emailTurns, List.mem_cons, List.not_mem_nil, or_false] at ho
  rcases ho with rfl | rfl | rfl
  · exact hset "Add" "a@b" (by decide)
  · exact .removePath (by decide) (by decide)
  · exact hset "replace" "c@d" (by decide)

/-- The user of the sample store with an external id. -/
def linkedUser (email : Option String) (updatedAt : ℕ) : ScimUser :=
  ⟨"u", some "e", "ann", none, none, email, true, none, 0, updatedAt⟩

def linkedStore (email : Option String) (updatedAt : ℕ) : Store :=
  { sampleStore with users := [linkedUser email updatedAt] }

/-- The theorem at an email that is set, removed and overwritten. -/
theorem patch_folds_iff_email :
    (∀ a, contentOf (linkedUser (some "c@d") 1) a =
        reference (contentOf (linkedUser none 0)) emailTurns a) ↔
      SkipsNothing (contentOf (linkedUser none 0)) emailTurns := by
  have h : serve sampleEnv sampleTicks (.patchUser "u" (emailTurns.map some))
      (linkedStore none 0) =
      (.ok (userAnswer sampleEnv 200 (linkedUser (some "c@d") 1)), linkedStore (some "c@d") 1) := by
    decide +kernel
  exact patch_folds_iff emailTurns_typed rfl h rfl

/-- The removal and the name are answered with 200 and change nothing. -/
theorem skipped_operations :
    (WellTyped removeExternalId ∧
      serve sampleEnv sampleTicks (.patchUser "u" [some removeExternalId]) (linkedStore none 0) =
        (.ok (userAnswer sampleEnv 200 (linkedUser none 0)), linkedStore none 0) ∧
      contentOf (linkedUser none 0) .externalId ≠
        reference (contentOf (linkedUser none 0)) [removeExternalId] .externalId) ∧
    (WellTyped setGivenName ∧
      serve sampleEnv sampleTicks (.patchUser "u" [some setGivenName]) (linkedStore none 0) =
        (.ok (userAnswer sampleEnv 200 (linkedUser none 0)), linkedStore none 0) ∧
      contentOf (linkedUser none 0) .givenName ≠
        reference (contentOf (linkedUser none 0)) [setGivenName] .givenName) := by
  refine ⟨⟨.removePath (by decide) (by decide), by decide +kernel, ?_⟩,
    ⟨.setPath (Or.inr (by decide)) ?_, by decide +kernel, ?_⟩⟩
  · intro h
    cases h
  · exact Or.inr (Or.inr (Or.inl ⟨rfl, ⟨_, rfl⟩, fun w hw => ⟨"Ann", (Option.some.inj hw).symm⟩,
      fun w hw => by contradiction⟩))
  · intro h
    cases h

end Folds

end OktaScim.PatchFold
