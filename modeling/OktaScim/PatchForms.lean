import OktaScim.PatchTranslation
import OktaScim.PatchComposition

/-!
The two forms of a user PATCH operation: a path with a value, and an object
that holds the value under that path. They are translated by different code.
For a name part the path form stores `String()` of the value and the object
form the value itself; for emails they also look for the value in different
places.
-/
namespace OktaScim.PatchForms

open Programs Schema KeyedRows JsValues PrismaClient PrismaConstraints Bodies UserPatch
open UserPatchMeaning PatchTranslation PatchComposition LastWrites Requests RequestPrograms
open UserUpdates

section Forms

def pathOf : Attribute → String
  | .active => "active"
  | .userName => "userName"
  | .givenName => "name.givenName"
  | .familyName => "name.familyName"
  | .email => "emails"
  | .externalId => "externalId"

/-- The object with only that attribute set. -/
def objectOf (v : Json) : Attribute → List (String × Json)
  | .active => [("active", v)]
  | .userName => [("userName", v)]
  | .givenName => [("name", .obj [("givenName", v)])]
  | .familyName => [("name", .obj [("familyName", v)])]
  | .email => [("emails", v)]
  | .externalId => [("externalId", v)]

def pathForm (op : String) (a : Attribute) (v : Json) : PatchOperation :=
  ⟨some op, some (pathOf a), some v⟩

def objectForm (op : String) (a : Attribute) (v : Json) : PatchOperation :=
  ⟨some op, none, some (.obj (objectOf v a))⟩

/-- What the path form sends for its attribute. -/
def pathValue (v : Json) : Attribute → Option Sent
  | .active => some (.truth (some v))
  | .email => emailSent (some v)
  | _ => some (.text (some v))

/-- What the object form sends for its attribute. -/
def objectValue (v : Json) : Attribute → Option Sent
  | .active => some (.truth (some v))
  | .userName => some (.text (some v))
  | .externalId => some (.text (some v))
  | .email => entrySent (some v)
  | _ => some (.asIs (some v))

/-- The operation sends `S` for the attribute and nothing for the others. -/
def SendsOnly (a : Attribute) (S : Option Sent) (o : PatchOperation) : Prop :=
  ∀ b, sent b o = if b = a then S else none

theorem pathForm_sends {op : String} (a : Attribute) (v : Json)
    (hop : toLowerCase op = "replace" ∨ toLowerCase op = "add") :
    SendsOnly a (pathValue v a) (pathForm op a v) := by
  have hreplaces : Replaces (pathForm op a v) :=
    hop.imp (congrArg some) (congrArg some)
  have hne : pathOf a ≠ "" := by
    cases a <;> decide
  intro b
  rw [sent_path hreplaces rfl hne]
  have hvalue : pathSent (pathOf a) (some v) = (pathValue v a).map fun s => (a, s) := by
    cases a <;> rfl
  rw [show (pathForm op a v).value = some v from rfl, hvalue]
  cases pathValue v a with
  | none => simp
  | some s =>
    by_cases hab : a = b
    · simp [hab]
    · simp [hab, Ne.symm hab]

theorem objectForm_sends {op : String} (a : Attribute) (v : Json)
    (hop : toLowerCase op = "replace" ∨ toLowerCase op = "add") :
    SendsOnly a (objectValue v a) (objectForm op a v) := by
  have hreplaces : Replaces (objectForm op a v) :=
    hop.imp (congrArg some) (congrArg some)
  intro b
  rw [sent_object hreplaces rfl rfl]
  cases a <;> cases b <;> rfl

end Forms

section Outcome

/-- Two requests agree in their success and in the user that they leave. -/
structure SameOutcome (id : String) (r r' : Except Exception Answer × Store) : Prop where
  succeeds : r.1.isOk = r'.1.isOk
  leaves : r.2.user id = r'.2.user id

/-- The user that the translated operations leave, unless the PATCH fails. -/
def leftBy (E : Engine) (s : Store) (id : String) (now : ℕ) (u : ScimUser) (f : UserPatchFields) :
    Option ScimUser :=
  ((UsersService.patchData f).read E).bind fun upd =>
    if userNameTaken s id (upd.userName.getD u.userName) then none else some (upd.apply now u)

def left (E : Engine) (s : Store) (id : String) (now : ℕ) (u : ScimUser)
    (ops : List (Option PatchOperation)) : Option ScimUser :=
  (applyUserPatch ops).bind (leftBy E s id now u)

variable (env : Env) (ticks : ℕ → Tick) {s : Store} {id : String} {u : ScimUser}

/-- A PATCH of a stored user leaves this user, or fails and leaves the store. -/
theorem serve_patchUser (hu : s.user id = some u) (ops : List (Option PatchOperation)) :
    match left env.engine s id (ticks 1).now u ops with
    | none => ∃ e, serve env ticks (.patchUser id ops) s = (.error e, s)
    | some u' => ∃ a t, serve env ticks (.patchUser id ops) s = (.ok a, t) ∧
        t.user id = some u' := by
  unfold serve left
  cases hfields : applyUserPatch ops with
  | none =>
    rw [handle_patchUser_none env hfields]
    exact ⟨_, rfl⟩
  | some f =>
    rw [handle_patchUser_some env hfields, Option.bind_some, leftBy]
    cases hread : (UsersService.patchData f).read env.engine with
    | none =>
      rw [Option.bind_none, run_userLookup, hu]
      refine ⟨.prisma .validation, ?_⟩
      simp [updateUserTail, run, exec, userUpdate, hread, rejects]
    | some upd =>
      rw [Option.bind_some, run_updateUser hread, hu]
      dsimp only
      by_cases htaken : userNameTaken s id (upd.userName.getD u.userName) = true
      · rw [if_pos htaken, if_pos htaken]
        exact ⟨_, rfl⟩
      · rw [if_neg htaken, if_neg htaken]
        exact ⟨_, _, rfl, user_after_update hu _ _⟩

theorem sameOutcome_iff (hu : s.user id = some u) (ops ops' : List (Option PatchOperation)) :
    SameOutcome id (serve env ticks (.patchUser id ops) s)
        (serve env ticks (.patchUser id ops') s) ↔
      left env.engine s id (ticks 1).now u ops = left env.engine s id (ticks 1).now u ops' := by
  have hserve := serve_patchUser env ticks hu ops
  have hserve' := serve_patchUser env ticks hu ops'
  cases hleft : left env.engine s id (ticks 1).now u ops with
  | none =>
    rw [hleft] at hserve
    obtain ⟨e, hserve⟩ := hserve
    cases hleft' : left env.engine s id (ticks 1).now u ops' with
    | none =>
      rw [hleft'] at hserve'
      obtain ⟨e', hserve'⟩ := hserve'
      rw [hserve, hserve']
      exact iff_of_true ⟨rfl, rfl⟩ rfl
    | some u₂ =>
      rw [hleft'] at hserve'
      obtain ⟨a', t', hserve', _⟩ := hserve'
      rw [hserve, hserve']
      exact iff_of_false (fun h => by cases h.succeeds) (by simp)
  | some u₁ =>
    rw [hleft] at hserve
    obtain ⟨a, t, hserve, ht⟩ := hserve
    cases hleft' : left env.engine s id (ticks 1).now u ops' with
    | none =>
      rw [hleft'] at hserve'
      obtain ⟨e', hserve'⟩ := hserve'
      rw [hserve, hserve']
      exact iff_of_false (fun h => by cases h.succeeds) (by simp)
    | some u₂ =>
      rw [hleft'] at hserve'
      obtain ⟨a', t', hserve', ht'⟩ := hserve'
      rw [hserve, hserve', ← ht, ← ht']
      exact ⟨fun h => h.leaves, fun h => ⟨rfl, h⟩⟩

end Outcome

section Columns

/-- The attributes whose column the translation can leave without a text. -/
def Loose (a : Attribute) : Prop := a = .givenName ∨ a = .familyName ∨ a = .email

def withValue (f : UserPatchFields) (a : Attribute) (w : Option Json) : UserPatchFields :=
  match a with
  | .givenName => { f with givenName := w }
  | .familyName => { f with familyName := w }
  | .email => { f with email := w }
  | _ => f

/-- The text stored for an attribute. -/
def storedText (u : ScimUser) : Attribute → Option String
  | .active => none
  | .userName => some u.userName
  | .givenName => u.givenName
  | .familyName => u.familyName
  | .email => u.email
  | .externalId => u.externalId

def setText (u : ScimUser) (a : Attribute) (c : Option String) : ScimUser :=
  match a with
  | .givenName => { u with givenName := c }
  | .familyName => { u with familyName := c }
  | .email => { u with email := c }
  | _ => u

/-- What the attribute's column holds once `w` is written to it. -/
def written (E : Engine) (old : Option String) (w : Option Json) : Option (Option String) :=
  (updateColumn E w).map fun x => writeColumn x old

variable {a : Attribute}

theorem setText_injective (ha : Loose a) (u : ScimUser) : Function.Injective (setText u a) := by
  intro c c' h
  have hcolumn := congrArg (fun u => storedText u a) h
  rcases ha with rfl | rfl | rfl <;> exact hcolumn

theorem fields_ext {f g : UserPatchFields} (h : ∀ b, fieldOf f b = fieldOf g b) : f = g := by
  obtain ⟨active, userName, givenName, familyName, email, externalId⟩ := f
  obtain ⟨active', userName', givenName', familyName', email', externalId'⟩ := g
  have hactive : active = active' :=
    Option.map_injective (fun _ _ h => Json.bool.inj h) (h .active)
  have huserName : userName = userName' :=
    Option.map_injective (fun _ _ h => Json.str.inj h) (h .userName)
  have hexternalId : externalId = externalId' :=
    Option.map_injective (fun _ _ h => Json.str.inj h) (h .externalId)
  have hgivenName : givenName = givenName' := h .givenName
  have hfamilyName : familyName = familyName' := h .familyName
  have hemail : email = email' := h .email
  rw [hactive, huserName, hexternalId, hgivenName, hfamilyName, hemail]

theorem fieldOf_withValue (ha : Loose a) (f : UserPatchFields) (w : Option Json) (b : Attribute) :
    fieldOf (withValue f a w) b = if b = a then w else fieldOf f b := by
  rcases ha with rfl | rfl | rfl <;> cases b <;> rfl

/-- The user that is left, column by column, as if it were always written. -/
def rowBy (E : Engine) (s : Store) (id : String) (now : ℕ) (u : ScimUser) (f : UserPatchFields) :
    Option ScimUser :=
  (written E u.externalId (f.externalId.map .str)).bind fun externalId =>
    (written E u.givenName f.givenName).bind fun givenName =>
      (written E u.familyName f.familyName).bind fun familyName =>
        (written E u.email f.email).bind fun email =>
          if userNameTaken s id (f.userName.getD u.userName) then none
          else some ⟨u.id, externalId, f.userName.getD u.userName, givenName, familyName,
            email, f.active.getD u.active, u.passwordHash, u.createdAt, now⟩

def rowLeft (E : Engine) (s : Store) (id : String) (now : ℕ) (u : ScimUser)
    (ops : List (Option PatchOperation)) : Option ScimUser :=
  (applyUserPatch ops).bind (rowBy E s id now u)

@[simp] theorem written_none (E : Engine) (old : Option String) : written E old none = some old :=
  rfl

section Rows

variable {E : Engine} {s : Store} {id : String} {now : ℕ} {u : ScimUser}

theorem rowBy_eq (f : UserPatchFields) :
    rowBy E s id now u f =
      (written E u.externalId (f.externalId.map .str)).bind fun externalId =>
        (written E u.givenName f.givenName).bind fun givenName =>
          (written E u.familyName f.familyName).bind fun familyName =>
            (written E u.email f.email).bind fun email =>
              if userNameTaken s id (f.userName.getD u.userName) then none
              else some ⟨u.id, externalId, f.userName.getD u.userName, givenName, familyName,
                email, f.active.getD u.active, u.passwordHash, u.createdAt, now⟩ := rfl

/-- What is left is the row, with the time of the update if anything is written. -/
theorem leftBy_eq (f : UserPatchFields) :
    leftBy E s id now u f = (rowBy E s id now u f).map fun row =>
      { row with
        updatedAt :=
          if (UsersService.patchData f).read E = some .nothing then u.updatedAt else now } := by
  unfold leftBy rowBy written UserUpdateData.read
  have hname : (UsersService.patchData f).userName = f.userName := rfl
  have hexternal : (UsersService.patchData f).externalId = f.externalId.map .str := rfl
  have hgiven : (UsersService.patchData f).givenName = f.givenName := rfl
  have hfamily : (UsersService.patchData f).familyName = f.familyName := rfl
  have hemail : (UsersService.patchData f).email = f.email := rfl
  rw [hname, hexternal, hgiven, hfamily, hemail]
  cases updateColumn E (f.externalId.map .str) with
  | none => rfl
  | some externalId =>
    cases updateColumn E f.givenName with
    | none => rfl
    | some givenName =>
      cases updateColumn E f.familyName with
      | none => rfl
      | some familyName =>
        cases updateColumn E f.email with
        | none => rfl
        | some email =>
          simp only [Option.bind_eq_bind, Option.bind_some, Option.pure_def, Option.map_some,
            Option.some.injEq]
          by_cases htaken : userNameTaken s id (f.userName.getD u.userName) = true
          · rw [if_pos htaken, if_pos htaken]
            rfl
          · rw [if_neg htaken, if_neg htaken]
            rfl

theorem rowBy_updatedAt {f : UserPatchFields} {row : ScimUser}
    (h : rowBy E s id now u f = some row) : row.updatedAt = now := by
  unfold rowBy at h
  simp only [Option.bind_eq_some_iff] at h
  obtain ⟨_, _, _, _, _, _, _, _, h⟩ := h
  split at h
  · contradiction
  · cases h
    rfl

theorem bind_map_guarded {α β : Type} (taken : Bool) (base : α) (set : α → β → α) (w : Option β) :
    ((if taken = true then none else some base).bind fun b => w.map (set b)) =
      w.bind fun c => if taken = true then none else some (set base c) := by
  cases taken <;> cases w <;> rfl

/-- The value of one column does not bear on what the others leave. -/
theorem rowBy_withValue (ha : Loose a) (f : UserPatchFields) (w : Option Json) :
    rowBy E s id now u (withValue f a w) =
      (rowBy E s id now u (withValue f a none)).bind fun base =>
        (written E (storedText u a) w).map (setText base a) := by
  rcases ha with rfl | rfl | rfl <;>
    simp only [rowBy_eq, withValue, written_none, Option.bind_some, Option.bind_assoc,
      bind_map_guarded, storedText, setText]
  · refine Option.bind_congr fun externalId _ => ?_
    rw [Option.bind_comm]
    exact Option.bind_congr fun familyName _ => Option.bind_comm _ _
  · refine Option.bind_congr fun externalId _ => Option.bind_congr fun givenName _ => ?_
    exact Option.bind_comm _ _

theorem readable_text (E : Engine) (t : Option String) :
    ∃ x, updateColumn E (t.map .str) = some x := by
  cases t with
  | none => exact ⟨_, rfl⟩
  | some t => exact ⟨_, E.update_str t⟩

/-- Nothing is left when a column is unreadable or the name is taken. -/
theorem rowBy_eq_none (f : UserPatchFields) :
    rowBy E s id now u f = none ↔
      (∃ b, Loose b ∧ updateColumn E (fieldOf f b) = none) ∨
        userNameTaken s id (f.userName.getD u.userName) = true := by
  obtain ⟨x, hx⟩ := readable_text E f.externalId
  unfold rowBy
  simp only [written, hx, Option.map_some, Option.bind_some]
  cases hg : updateColumn E f.givenName with
  | none => exact iff_of_true rfl (Or.inl ⟨.givenName, Or.inl rfl, hg⟩)
  | some g =>
    cases hf : updateColumn E f.familyName with
    | none => exact iff_of_true rfl (Or.inl ⟨.familyName, Or.inr (Or.inl rfl), hf⟩)
    | some fam =>
      cases he : updateColumn E f.email with
      | none => exact iff_of_true rfl (Or.inl ⟨.email, Or.inr (Or.inr rfl), he⟩)
      | some e =>
        have hreadable : ¬∃ b, Loose b ∧ updateColumn E (fieldOf f b) = none := by
          rintro ⟨b, rfl | rfl | rfl, hb⟩
          · cases hg.symm.trans hb
          · cases hf.symm.trans hb
          · cases he.symm.trans hb
        simp only [hreadable, false_or, Option.map_some, Option.bind_some, ite_eq_left_iff,
          Bool.not_eq_true, reduceCtorEq, imp_false, Bool.not_eq_false]

theorem rowBy_withoutValue (ha : Loose a) (f : UserPatchFields) :
    rowBy E s id now u (withValue f a none) = none ↔
      (∃ b, b ≠ a ∧ Loose b ∧ updateColumn E (fieldOf f b) = none) ∨
        userNameTaken s id (f.userName.getD u.userName) = true := by
  have huserName : (withValue f a none).userName = f.userName := by
    rcases ha with rfl | rfl | rfl <;> rfl
  rw [rowBy_eq_none, huserName]
  refine or_congr (exists_congr fun b => ?_) Iff.rfl
  rw [fieldOf_withValue ha]
  by_cases hb : b = a
  · simp [hb, updateColumn]
  · simp [hb]

end Rows

end Columns

section Lists

variable {E : Engine} {s : Store} {id : String} {now : ℕ} {u : ScimUser} {a : Attribute}
  {S : Option Sent} {o : PatchOperation} {pre post : List (Option PatchOperation)}
  {f : UserPatchFields}

/-- The column after an operation that sends `S` between others: nothing if
`S` cannot be converted or the last value cannot be read. -/
def columnLeft (E : Engine) (old : Option String) (before after S : Option Sent) :
    Option (Option String) :=
  if S.all fun s => s.stored.isSome then
    written E old ((after.or (S.or before)).bind fun s => s.stored.join)
  else none

theorem lastSent_around (ho : SendsOnly a S o) (b : Attribute) :
    lastSent b (pre ++ some o :: post) =
      (lastSent b post).or ((if b = a then S else none).or (lastSent b pre)) := by
  have hmid : sentBy b (some o) = if b = a then S else none := ho b
  rw [lastSent_append, lastSent, lastWrite_cons, hmid]
  exact Option.or_assoc

theorem converts_around (ho : SendsOnly a S o) :
    (∀ p ∈ pre ++ some o :: post, Converts p) ↔
      (∀ p ∈ pre ++ post, Converts p) ∧ S.all (fun s => s.stored.isSome) = true := by
  have hmid : Converts (some o) ↔ S.all (fun s => s.stored.isSome) = true := by
    simp only [Converts, Option.some.injEq, exists_eq_left', Option.all_eq_true]
    refine ⟨fun h s hs => h a s (by rw [ho a, if_pos rfl, hs]), fun h b s hs => ?_⟩
    rw [ho b] at hs
    split at hs
    · exact h s hs
    · contradiction
  simp only [List.forall_mem_append, List.forall_mem_cons, hmid]
  constructor
  · rintro ⟨hpre, hS, hpost⟩
    exact ⟨⟨hpre, hpost⟩, hS⟩
  · rintro ⟨⟨hpre, hpost⟩, hS⟩
    exact ⟨hpre, hS, hpost⟩

/-- The operation decides on its own column only. -/
theorem rowLeft_around (ha : Loose a) (ho : SendsOnly a S o)
    (hf : applyUserPatch (pre ++ post) = some f) :
    rowLeft E s id now u (pre ++ some o :: post) =
      (rowBy E s id now u (withValue f a none)).bind fun base =>
        (columnLeft E (storedText u a) (lastSent a pre) (lastSent a post) S).map
          (setText base a) := by
  have hothers : ∀ p ∈ pre ++ post, Converts p :=
    (applyUserPatch_isSome _).mp (by rw [hf]; rfl)
  have hall := (applyUserPatch_isSome (pre ++ some o :: post)).trans (converts_around ho)
  unfold rowLeft columnLeft
  cases hg : applyUserPatch (pre ++ some o :: post) with
  | none =>
    rw [hg] at hall
    have hS : ¬S.all (fun s => s.stored.isSome) = true := fun hS => by
      cases hall.mpr ⟨hothers, hS⟩
    rw [if_neg hS]
    simp
  | some g =>
    rw [hg] at hall
    have hfields : g = withValue f a (fieldOf g a) := by
      refine fields_ext fun b => ?_
      rw [fieldOf_withValue ha]
      split
      · next hb => rw [hb]
      · next hb =>
        rw [applyUserPatch_field hg, applyUserPatch_field hf, lastSent_around ho, if_neg hb,
          lastSent_append]
        rfl
    rw [if_pos (hall.mp rfl).2, Option.bind_some, hfields, rowBy_withValue ha,
      applyUserPatch_field hg, lastSent_around ho, if_pos rfl]

/-- The value that a list sends last for an attribute, converted. -/
def lastValue (a : Attribute) (ops : List (Option PatchOperation)) : Option Json :=
  (lastSent a ops).bind fun s => s.stored.join

/-- Nothing that the list sends last is written, so that no update is made. -/
structure Idle (E : Engine) (ops : List (Option PatchOperation)) : Prop where
  active : lastValue .active ops = none
  texts : ∀ b, b ≠ .active → updateColumn E (lastValue b ops) = some .undefined

theorem idle_congr {ops ops' : List (Option PatchOperation)}
    (h : ∀ b, lastValue b ops = lastValue b ops') : Idle E ops ↔ Idle E ops' := by
  constructor
  · rintro ⟨hactive, htexts⟩
    exact ⟨by rw [← h, hactive], fun b hb => by rw [← h, htexts b hb]⟩
  · rintro ⟨hactive, htexts⟩
    exact ⟨by rw [h, hactive], fun b hb => by rw [h, htexts b hb]⟩

theorem idle_iff {ops : List (Option PatchOperation)} (hf : applyUserPatch ops = some f) :
    (UsersService.patchData f).read E = some .nothing ↔ Idle E ops := by
  have hfield : ∀ b, fieldOf f b = lastValue b ops := applyUserPatch_field hf
  have htext : ∀ t : Option String, updateColumn E (t.map .str) = some .undefined ↔ t = none := by
    intro t
    cases t with
    | none => exact iff_of_true rfl rfl
    | some t => simp [updateColumn, E.update_str]
  have hread : (UsersService.patchData f).read E = some .nothing ↔
      f.active = none ∧ f.userName = none ∧ updateColumn E (f.externalId.map .str) =
        some .undefined ∧ updateColumn E f.givenName = some .undefined ∧
          updateColumn E f.familyName = some .undefined ∧
            updateColumn E f.email = some .undefined := by
    unfold UserUpdateData.read UsersService.patchData UserUpdate.nothing
    simp only [Option.bind_eq_bind, Option.bind_eq_some_iff, Option.pure_def, Option.some.injEq,
      UserUpdate.mk.injEq]
    constructor
    · rintro ⟨_, hexternal, _, hgiven, _, hfamily, _, hemail, hname, rfl, rfl, rfl, rfl, hactive, -⟩
      exact ⟨hactive, hname, hexternal, hgiven, hfamily, hemail⟩
    · rintro ⟨hactive, hname, hexternal, hgiven, hfamily, hemail⟩
      exact ⟨_, hexternal, _, hgiven, _, hfamily, _, hemail, hname, rfl, rfl, rfl, rfl, hactive,
        trivial⟩
  rw [hread]
  constructor
  · rintro ⟨hactive, hname, hexternal, hgiven, hfamily, hemail⟩
    refine ⟨by rw [← hfield, fieldOf, hactive, Option.map_none], fun b hb => ?_⟩
    rw [← hfield]
    cases b with
    | active => contradiction
    | userName => rw [fieldOf, hname, Option.map_none, updateColumn]
    | givenName => exact hgiven
    | familyName => exact hfamily
    | email => exact hemail
    | externalId => exact hexternal
  · rintro ⟨hactive, htexts⟩
    have hcolumn : ∀ b, b ≠ .active → updateColumn E (fieldOf f b) = some .undefined := by
      intro b hb
      rw [hfield, htexts b hb]
    rw [← hfield, fieldOf, Option.map_eq_none_iff] at hactive
    exact ⟨hactive, (htext _).mp (hcolumn .userName (by decide)), hcolumn .externalId (by decide),
      hcolumn .givenName (by decide), hcolumn .familyName (by decide), hcolumn .email (by decide)⟩

/-- Two PATCHes leave the same user when they leave the same columns, and both
write or both do not, unless they fail or no time has passed. -/
theorem left_eq_iff (ops ops' : List (Option PatchOperation)) :
    left E s id now u ops = left E s id now u ops' ↔
      rowLeft E s id now u ops = rowLeft E s id now u ops' ∧
        (rowLeft E s id now u ops = none ∨ now = u.updatedAt ∨ (Idle E ops ↔ Idle E ops')) := by
  have hstamp : ∀ ops, ∃ stamp : ℕ, (stamp = u.updatedAt ∧ Idle E ops ∨ stamp = now ∧ ¬Idle E ops ∨
      rowLeft E s id now u ops = none) ∧
      left E s id now u ops = (rowLeft E s id now u ops).map fun row =>
        { row with updatedAt := stamp } := by
    intro ops
    unfold left rowLeft
    cases hf : applyUserPatch ops with
    | none => exact ⟨now, Or.inr (Or.inr rfl), rfl⟩
    | some f =>
      refine ⟨if (UsersService.patchData f).read E = some .nothing then u.updatedAt else now, ?_,
        leftBy_eq f⟩
      by_cases hidle : (UsersService.patchData f).read E = some .nothing
      · exact Or.inl ⟨if_pos hidle, (idle_iff hf).mp hidle⟩
      · exact Or.inr (Or.inl ⟨if_neg hidle, (idle_iff hf).not.mp hidle⟩)
  have hnow : ∀ ops row, rowLeft E s id now u ops = some row → row.updatedAt = now := by
    intro ops row hrow
    obtain ⟨f, _, hrow⟩ := Option.bind_eq_some_iff.mp hrow
    exact rowBy_updatedAt hrow
  obtain ⟨stamp, hstamp₁, hleft⟩ := hstamp ops
  obtain ⟨stamp', hstamp₂, hleft'⟩ := hstamp ops'
  rw [hleft, hleft']
  cases hrow : rowLeft E s id now u ops with
  | none => simp [eq_comm]
  | some row =>
    cases hrow' : rowLeft E s id now u ops' with
    | none => simp
    | some row' =>
      have hsame : ({ row with updatedAt := stamp } : ScimUser) =
          { row' with updatedAt := stamp' } ↔ row = row' ∧ stamp = stamp' := by
        have htime := (hnow ops row hrow).trans (hnow ops' row' hrow').symm
        cases row
        cases row'
        simp only [ScimUser.mk.injEq] at htime ⊢
        tauto
      rw [hrow] at hstamp₁
      rw [hrow'] at hstamp₂
      rw [Option.map_some, Option.map_some, Option.some.injEq, hsame, Option.some.injEq]
      refine and_congr_right fun _ => ?_
      simp only [reduceCtorEq, or_false, false_or] at hstamp₁ hstamp₂ ⊢
      rcases hstamp₁ with ⟨rfl, hidle⟩ | ⟨rfl, hidle⟩
      · rcases hstamp₂ with ⟨rfl, hidle'⟩ | ⟨rfl, hidle'⟩
        · simp [hidle, hidle']
        · simp [hidle, hidle', eq_comm]
      · rcases hstamp₂ with ⟨rfl, hidle'⟩ | ⟨rfl, hidle'⟩
        · simp [hidle, hidle']
        · simp [hidle, hidle']

/-- The user name under which the row is written. -/
def nameLeft (u : ScimUser) (ops : List (Option PatchOperation)) : String :=
  match lastValue .userName ops with
  | some (.str t) => t
  | _ => u.userName

/-- Operations that send the same can stand for each other. -/
theorem rowLeft_congr {o' : PatchOperation} (ho : SendsOnly a S o) (ho' : SendsOnly a S o') :
    rowLeft E s id now u (pre ++ some o :: post) =
      rowLeft E s id now u (pre ++ some o' :: post) := by
  have hisSome := (applyUserPatch_isSome (pre ++ some o :: post)).trans (converts_around ho)
  have hisSome' := (applyUserPatch_isSome (pre ++ some o' :: post)).trans (converts_around ho')
  have hsame := hisSome.trans hisSome'.symm
  unfold rowLeft
  cases hf : applyUserPatch (pre ++ some o :: post) with
  | none =>
    cases hg : applyUserPatch (pre ++ some o' :: post) with
    | none => rfl
    | some g => simp [hf, hg] at hsame
  | some f =>
    cases hg : applyUserPatch (pre ++ some o' :: post) with
    | none => simp [hf, hg] at hsame
    | some g =>
      have hfields : f = g := fields_ext fun b => by
        rw [applyUserPatch_field hf, applyUserPatch_field hg, lastSent_around ho,
          lastSent_around ho']
      rw [hfields]

/-- The PATCH fails whatever is sent for `a` between the two lists: another
operation cannot be translated, a value other than the one sent there is
unreadable, or the user name is taken. -/
inductive Refused (E : Engine) (s : Store) (id : String) (u : ScimUser) (a : Attribute)
    (pre post : List (Option PatchOperation)) : Prop
  | operation (p : Option PatchOperation) (mem : p ∈ pre ++ post) (fails : ¬Converts p)
  | column (b : Attribute) (other : b ≠ a) (loose : Loose b)
      (unreadable : updateColumn E (lastValue b (pre ++ post)) = none)
  | later (unreadable : updateColumn E (lastValue a post) = none)
  | userName (taken : userNameTaken s id (nameLeft u (pre ++ post)) = true)

theorem nameLeft_eq (hf : applyUserPatch post = some f) :
    f.userName.getD u.userName = nameLeft u post := by
  have hfield := applyUserPatch_field hf .userName
  unfold nameLeft lastValue
  rw [← hfield, fieldOf]
  cases f.userName <;> rfl

theorem rowLeft_refused (hpre : ∃ p ∈ pre ++ post, ¬Converts p) (ho : SendsOnly a S o) :
    rowLeft E s id now u (pre ++ some o :: post) = none := by
  have hall := (applyUserPatch_isSome (pre ++ some o :: post)).trans (converts_around ho)
  unfold rowLeft
  cases hg : applyUserPatch (pre ++ some o :: post) with
  | none => rfl
  | some g =>
    rw [hg] at hall
    obtain ⟨p, hp, hfails⟩ := hpre
    exact absurd ((hall.mp rfl).1 p hp) hfails

theorem columnLeft_unreadable {old : Option String} {before after : Option Sent}
    (h : updateColumn E (after.bind fun s => s.stored.join) = none) (S : Option Sent) :
    columnLeft E old before after S = none := by
  cases after with
  | none => contradiction
  | some m =>
    rw [columnLeft, Option.some_or, written, h]
    split <;> rfl

/-- Two operations on the same loose attribute, each in the same place. -/
theorem rowLeft_eq_iff {S' : Option Sent} {o' : PatchOperation} (ha : Loose a)
    (ho : SendsOnly a S o) (ho' : SendsOnly a S' o') :
    rowLeft E s id now u (pre ++ some o :: post) = rowLeft E s id now u (pre ++ some o' :: post) ↔
      Refused E s id u a pre post ∨
        columnLeft E (storedText u a) (lastSent a pre) (lastSent a post) S =
          columnLeft E (storedText u a) (lastSent a pre) (lastSent a post) S' := by
  by_cases hothers : ∀ p ∈ pre ++ post, Converts p
  · obtain ⟨f, hf⟩ := Option.isSome_iff_exists.mp ((applyUserPatch_isSome _).mpr hothers)
    rw [rowLeft_around ha ho hf, rowLeft_around ha ho' hf]
    have hnone : rowBy E s id now u (withValue f a none) = none ↔ _ := rowBy_withoutValue ha f
    rw [nameLeft_eq hf] at hnone
    simp only [applyUserPatch_field hf] at hnone
    cases hbase : rowBy E s id now u (withValue f a none) with
    | none =>
      refine iff_of_true rfl (Or.inl ?_)
      rcases hnone.mp hbase with ⟨b, hb, hloose, hunreadable⟩ | htaken
      · exact .column b hb hloose hunreadable
      · exact .userName htaken
    | some base =>
      rw [hbase] at hnone
      rw [Option.bind_some, Option.bind_some,
        (Option.map_injective (setText_injective ha base)).eq_iff]
      refine ⟨Or.inr, fun h => h.elim (fun hrefused => ?_) fun h => h⟩
      cases hrefused with
      | operation p mem fails => exact absurd (hothers p mem) fails
      | column b other loose unreadable =>
        cases hnone.mpr (Or.inl ⟨b, other, loose, unreadable⟩)
      | later unreadable =>
        rw [columnLeft_unreadable unreadable, columnLeft_unreadable unreadable]
      | userName taken => cases hnone.mpr (Or.inr taken)
  · simp only [not_forall] at hothers
    obtain ⟨p, hp, hfails⟩ := hothers
    refine iff_of_true ?_ (Or.inl (.operation p hp hfails))
    rw [rowLeft_refused ⟨p, hp, hfails⟩ ho, rowLeft_refused ⟨p, hp, hfails⟩ ho']

end Lists

section Values

/-- `String()` of the one value is what Prisma reads the other as. Where a
later operation sends the attribute, it is enough that `String()` returns. -/
def ReadAlike (E : Engine) (old : Option String) (later : Prop) (text : Json) (raw : Option Json) :
    Prop :=
  match text.toStr with
  | some t => later ∨ written E old raw = some (some t)
  | none => ¬later ∧ updateColumn E raw = none

/-- The two forms of an operation agree for the attribute and the value. -/
def FormsAlike (E : Engine) (u : ScimUser) (pre post : List (Option PatchOperation)) :
    Attribute → Json → Prop
  | .givenName, v => ReadAlike E u.givenName (lastSent .givenName post ≠ none) v (some v)
  | .familyName, v => ReadAlike E u.familyName (lastSent .familyName post ≠ none) v (some v)
  | .email, .str t =>
    lastSent .email post ≠ none ∨ written E u.email (lastValue .email pre) = some (some t)
  | .email, .arr (.null :: _) => True
  | .email, .arr (first :: _) =>
    ReadAlike E u.email (lastSent .email post ≠ none) (chosen first) (first.get "value")
  | _, _ => True

variable {E : Engine} {old : Option String} {before after : Option Sent}

theorem columnLeft_text_asIs (hafter : updateColumn E (after.bind fun s => s.stored.join) ≠ none)
    (text : Json) (raw : Option Json) :
    columnLeft E old before after (some (.text (some text))) =
        columnLeft E old before after (some (.asIs raw)) ↔
      ReadAlike E old (after ≠ none) text raw := by
  unfold columnLeft ReadAlike
  cases after with
  | none =>
    cases ht : text.toStr with
    | none => simp [Sent.stored, jsString, ht, written, eq_comm]
    | some t =>
      simp [Sent.stored, jsString, ht, written, updateColumn, E.update_str, writeColumn, eq_comm]
  | some m =>
    rw [Option.bind_some] at hafter
    simp only [Option.some_or, Option.bind_some]
    generalize m.stored.join = last at hafter
    cases ht : text.toStr with
    | none => simp [Sent.stored, jsString, ht, written, hafter]
    | some t => simp [Sent.stored, jsString, ht]

/-- What both forms send comes to the same exactly where they are alike. -/
theorem columnLeft_forms {pre post : List (Option PatchOperation)} {u : ScimUser} {a : Attribute}
    (ha : Loose a) (hlater : updateColumn E (lastValue a post) ≠ none) (v : Json) :
    columnLeft E (storedText u a) (lastSent a pre) (lastSent a post) (pathValue v a) =
        columnLeft E (storedText u a) (lastSent a pre) (lastSent a post) (objectValue v a) ↔
      FormsAlike E u pre post a v := by
  rcases ha with rfl | rfl | rfl
  · exact columnLeft_text_asIs hlater v (some v)
  · exact columnLeft_text_asIs hlater v (some v)
  · cases v with
    | str t =>
      unfold FormsAlike
      cases hpost : lastSent .email post with
      | some m => simp [columnLeft, pathValue, objectValue, emailSent, entrySent, Sent.stored]
      | none =>
        simp [columnLeft, pathValue, objectValue, emailSent, entrySent, Sent.stored, written,
          updateColumn, E.update_str, writeColumn, lastValue, storedText, eq_comm]
    | arr items =>
      cases items with
      | nil => exact iff_of_true rfl trivial
      | cons first rest =>
        cases first with
        | null => exact iff_of_true rfl trivial
        | _ => exact columnLeft_text_asIs hlater _ _
    | _ => exact iff_of_true rfl trivial

/-- A text, and an email entry whose value is a text, are read alike by both forms. -/
theorem readAlike_str (E : Engine) (old : Option String) (later : Prop) (t : String) :
    ReadAlike E old later (.str t) (some (.str t)) := by
  unfold ReadAlike
  simp [written, updateColumn, E.update_str, writeColumn]

end Values

section Agreement

variable {env : Env} {ticks : ℕ → Tick} {s : Store} {id : String} {u : ScimUser} {op : String}

/-- What both forms leave in the columns is the same exactly where the request
fails in any case or they are alike for the value. -/
theorem rowLeft_forms_iff {E : Engine} {now : ℕ}
    (hop : toLowerCase op = "replace" ∨ toLowerCase op = "add") (a : Attribute) (v : Json)
    (pre post : List (Option PatchOperation)) :
    rowLeft E s id now u (pre ++ some (pathForm op a v) :: post) =
        rowLeft E s id now u (pre ++ some (objectForm op a v) :: post) ↔
      Refused E s id u a pre post ∨ FormsAlike E u pre post a v := by
  have hpath := pathForm_sends a v hop
  have hobject := objectForm_sends a v hop
  by_cases ha : Loose a
  · rw [rowLeft_eq_iff ha hpath hobject]
    by_cases hlater : updateColumn E (lastValue a post) = none
    · exact iff_of_true (Or.inl (.later hlater)) (Or.inl (.later hlater))
    · rw [columnLeft_forms ha hlater]
  · have hsame : pathValue v a = objectValue v a := by
      cases a <;> first | rfl | exact absurd (by simp [Loose]) ha
    have halike : FormsAlike E u pre post a v := by
      cases a <;> first | exact trivial | exact absurd (by simp [Loose]) ha
    rw [← hsame] at hobject
    exact iff_of_true (rowLeft_congr hpath hobject) (Or.inr halike)

theorem entrySent_of_emailSent {v : Json} (h : emailSent (some v) = none) :
    entrySent (some v) = none := by
  cases v with
  | arr items =>
    cases items with
    | nil => rfl
    | cons first rest => cases first <;> contradiction
  | _ => rfl

/-- What a path form sends is written, if it can be converted. -/
theorem pathValue_writes (E : Engine) {v : Json} {a : Attribute} {m : Sent}
    (h : pathValue v a = some m) (hstored : m.stored.isSome = true) :
    ∃ w, m.stored.join = some w ∧ (a ≠ .active → updateColumn E (some w) ≠ some .undefined) := by
  have htext : ∀ value, m = .text value →
      ∃ w, m.stored.join = some w ∧ updateColumn E (some w) ≠ some .undefined := by
    rintro value rfl
    obtain ⟨t, ht⟩ := Option.isSome_iff_exists.mp hstored
    obtain ⟨s, _, rfl⟩ := Option.map_eq_some_iff.mp ht
    exact ⟨.str s, by rw [ht]; rfl, by simp [updateColumn, E.update_str]⟩
  cases a with
  | active =>
    cases h
    exact ⟨_, rfl, fun hne => absurd rfl hne⟩
  | email =>
    have hcases : m = .ofNull ∨ (∃ s, m = .asIs (some (.str s))) ∨ ∃ value, m = .text value := by
      cases v with
      | str s =>
        cases h
        exact Or.inr (Or.inl ⟨s, rfl⟩)
      | arr items =>
        cases items with
        | nil => contradiction
        | cons first rest =>
          cases first with
          | null =>
            cases h
            exact Or.inl rfl
          | _ =>
            cases h
            exact Or.inr (Or.inr ⟨_, rfl⟩)
      | _ => contradiction
    rcases hcases with rfl | ⟨s, rfl⟩ | ⟨value, hm⟩
    · contradiction
    · exact ⟨.str s, rfl, fun _ => by simp [updateColumn, E.update_str]⟩
    · obtain ⟨w, hw, hwrites⟩ := htext value hm
      exact ⟨w, hw, fun _ => hwrites⟩
  | _ =>
    cases h
    obtain ⟨w, hw, hwrites⟩ := htext _ rfl
    exact ⟨w, hw, fun _ => hwrites⟩

/-- A path form that is translated and writes nothing sends what the object
form sends, or what a later operation sends in its place. -/
theorem idle_objectForm {E : Engine} {pre post : List (Option PatchOperation)} {a : Attribute}
    {v : Json} (hop : toLowerCase op = "replace" ∨ toLowerCase op = "add")
    (hconverts : Converts (some (pathForm op a v)))
    (hidle : Idle E (pre ++ some (pathForm op a v) :: post)) :
    Idle E (pre ++ some (objectForm op a v) :: post) := by
  have hpath := pathForm_sends a v hop
  have hobject := objectForm_sends a v hop
  refine (idle_congr fun b => ?_).mp hidle
  unfold lastValue
  rw [lastSent_around hpath, lastSent_around hobject]
  by_cases hb : b = a
  · subst hb
    rw [if_pos rfl, if_pos rfl]
    cases hpost : lastSent b post with
    | some m => rfl
    | none =>
      have hlast : lastValue b (pre ++ some (pathForm op b v) :: post) =
          ((pathValue v b).or (lastSent b pre)).bind fun s => s.stored.join := by
        rw [lastValue, lastSent_around hpath, if_pos rfl, hpost, Option.none_or]
      cases hvalue : pathValue v b with
      | none =>
        have hnone : objectValue v b = none := by
          cases b with
          | email => exact entrySent_of_emailSent hvalue
          | _ => contradiction
        rw [hnone]
      | some m =>
        rw [hvalue, Option.some_or, Option.bind_some] at hlast
        obtain ⟨p, hp, hall⟩ := hconverts
        cases hp
        obtain ⟨w, hw, hwrites⟩ := pathValue_writes E hvalue
          (hall b m (by rw [hpath b, if_pos rfl, hvalue]))
        rw [hw] at hlast
        by_cases hactive : b = .active
        · have hnone := hidle.active
          rw [← hactive, hlast] at hnone
          contradiction
        · have hundefined := hidle.texts b hactive
          rw [hlast] at hundefined
          exact absurd hundefined (hwrites hactive)
  · rw [if_neg hb, if_neg hb]

theorem forms_same_value (hop : toLowerCase op = "replace" ∨ toLowerCase op = "add") {a : Attribute}
    {v : Json} (hsame : pathValue v a = objectValue v a) (pre post : List (Option PatchOperation))
    (b : Attribute) : lastValue b (pre ++ some (objectForm op a v) :: post) =
      lastValue b (pre ++ some (pathForm op a v) :: post) := by
  unfold lastValue
  rw [lastSent_around (pathForm_sends a v hop), lastSent_around (objectForm_sends a v hop), hsame]

theorem rowLeft_of_refused {E : Engine} {now : ℕ} {a : Attribute} {S : Option Sent}
    {o : PatchOperation} {pre post : List (Option PatchOperation)} (ha : Loose a)
    (ho : SendsOnly a S o) (h : Refused E s id u a pre post) :
    rowLeft E s id now u (pre ++ some o :: post) = none := by
  by_cases hothers : ∀ p ∈ pre ++ post, Converts p
  · obtain ⟨f, hf⟩ := Option.isSome_iff_exists.mp ((applyUserPatch_isSome _).mpr hothers)
    rw [rowLeft_around ha ho hf]
    have hnone : rowBy E s id now u (withValue f a none) = none ↔ _ := rowBy_withoutValue ha f
    rw [nameLeft_eq hf] at hnone
    simp only [applyUserPatch_field hf] at hnone
    cases h with
    | operation p mem fails => exact absurd (hothers p mem) fails
    | column b other loose unreadable =>
      rw [hnone.mpr (Or.inl ⟨b, other, loose, unreadable⟩), Option.bind_none]
    | later unreadable => simp [columnLeft_unreadable unreadable]
    | userName taken => rw [hnone.mpr (Or.inr taken), Option.bind_none]
  · simp only [not_forall] at hothers
    obtain ⟨p, hp, hfails⟩ := hothers
    exact rowLeft_refused ⟨p, hp, hfails⟩ ho

/-- An object form that fails although nothing is written begins an email list
with null, as the path form does. -/
theorem idle_pathForm {E : Engine} {now : ℕ} {pre post : List (Option PatchOperation)}
    {a : Attribute} {v : Json} (hop : toLowerCase op = "replace" ∨ toLowerCase op = "add")
    (hfails : rowLeft E s id now u (pre ++ some (objectForm op a v) :: post) = none)
    (hserved : ¬Refused E s id u a pre post)
    (hidle : Idle E (pre ++ some (objectForm op a v) :: post)) :
    Idle E (pre ++ some (pathForm op a v) :: post) := by
  by_cases hsame : pathValue v a = objectValue v a
  · exact (idle_congr (forms_same_value hop hsame pre post)).mp hidle
  exfalso
  have ha : Loose a := by
    by_contra ha
    refine hsame ?_
    cases a <;> first | rfl | exact absurd (by simp [Loose]) ha
  have hobject := objectForm_sends a v hop
  have hothers : ∀ p ∈ pre ++ post, Converts p := by
    intro p hp
    by_contra hp'
    exact hserved (.operation p hp hp')
  obtain ⟨f, hf⟩ := Option.isSome_iff_exists.mp ((applyUserPatch_isSome _).mpr hothers)
  have hbase : rowBy E s id now u (withValue f a none) ≠ none := by
    intro hnone
    rw [rowBy_withoutValue ha, nameLeft_eq hf] at hnone
    simp only [applyUserPatch_field hf] at hnone
    rcases hnone with ⟨b, hb, hloose, hunreadable⟩ | htaken
    · exact hserved (.column b hb hloose hunreadable)
    · exact hserved (.userName htaken)
  obtain ⟨base, hbase⟩ := Option.ne_none_iff_exists'.mp hbase
  rw [rowLeft_around ha hobject hf, hbase, Option.bind_some, Option.map_eq_none_iff,
    columnLeft] at hfails
  have hconverts : (objectValue v a).all (fun s => s.stored.isSome) = true := by
    rcases ha with rfl | rfl | rfl
    · rfl
    · rfl
    · cases v with
      | arr items =>
        cases items with
        | nil => rfl
        | cons first rest =>
          cases first with
          | null => exact absurd rfl hsame
          | _ => rfl
      | _ => rfl
  rw [if_pos hconverts, written, Option.map_eq_none_iff] at hfails
  have hundefined := hidle.texts a (by rcases ha with rfl | rfl | rfl <;> decide)
  rw [lastValue, lastSent_around hobject, if_pos rfl, hfails] at hundefined
  contradiction

/-- Both forms of an operation have the same outcome exactly where the request
fails in any case, or they are alike for the value and the object form is not
the only one to write nothing. -/
theorem forms_agree_iff (hu : s.user id = some u)
    (hop : toLowerCase op = "replace" ∨ toLowerCase op = "add") (a : Attribute) (v : Json)
    (pre post : List (Option PatchOperation)) :
    SameOutcome id
        (serve env ticks (.patchUser id (pre ++ some (pathForm op a v) :: post)) s)
        (serve env ticks (.patchUser id (pre ++ some (objectForm op a v) :: post)) s) ↔
      Refused env.engine s id u a pre post ∨
        (FormsAlike env.engine u pre post a v ∧
          (Idle env.engine (pre ++ some (objectForm op a v) :: post) →
            Idle env.engine (pre ++ some (pathForm op a v) :: post) ∨
              (ticks 1).now = u.updatedAt)) := by
  rw [sameOutcome_iff env ticks hu, left_eq_iff, rowLeft_forms_iff hop]
  by_cases hsame : pathValue v a = objectValue v a
  · have hidle := idle_congr (E := env.engine) (forms_same_value hop hsame pre post)
    have hrows : rowLeft env.engine s id (ticks 1).now u (pre ++ some (pathForm op a v) :: post) =
        rowLeft env.engine s id (ticks 1).now u (pre ++ some (objectForm op a v) :: post) :=
      rowLeft_congr (pathForm_sends a v hop) (hsame ▸ objectForm_sends a v hop)
    simp only [hidle, iff_self, or_true, and_true]
    tauto
  have ha : Loose a := by
    by_contra ha
    refine hsame ?_
    cases a <;> first | rfl | exact absurd (by simp [Loose]) ha
  by_cases hrefused : Refused env.engine s id u a pre post
  · have hnone : rowLeft env.engine s id (ticks 1).now u
        (pre ++ some (pathForm op a v) :: post) = none :=
      rowLeft_of_refused ha (pathForm_sends a v hop) hrefused
    exact iff_of_true ⟨Or.inl hrefused, Or.inl hnone⟩ (Or.inl hrefused)
  simp only [hrefused, false_or]
  refine and_congr_right fun halike => ?_
  have hrows : rowLeft env.engine s id (ticks 1).now u (pre ++ some (pathForm op a v) :: post) =
      rowLeft env.engine s id (ticks 1).now u (pre ++ some (objectForm op a v) :: post) :=
    (rowLeft_forms_iff hop a v pre post).mpr (Or.inr halike)
  by_cases hfails : rowLeft env.engine s id (ticks 1).now u
      (pre ++ some (pathForm op a v) :: post) = none
  · refine iff_of_true (Or.inl hfails) fun hidle => Or.inl ?_
    exact idle_pathForm hop (hrows ▸ hfails) hrefused hidle
  · have hsome : (applyUserPatch (pre ++ some (pathForm op a v) :: post)).isSome = true := by
      rw [Option.isSome_iff_ne_none]
      intro hnone
      rw [rowLeft, hnone, Option.bind_none] at hfails
      exact hfails rfl
    have hconverts := (applyUserPatch_isSome _).mp hsome (some (pathForm op a v)) (by simp)
    have hback := @idle_objectForm op env.engine pre post a v hop hconverts
    tauto

/-- The theorem at a given name that is a text. -/
theorem forms_agree_iff_text :
    SameOutcome "u"
        (serve sampleEnv sampleTicks
          (.patchUser "u" (setEmail ++ some (pathForm "Add" .givenName (.str "Ann")) :: deactivate))
          sampleStore)
        (serve sampleEnv sampleTicks
          (.patchUser "u"
            (setEmail ++ some (objectForm "Add" .givenName (.str "Ann")) :: deactivate))
          sampleStore) ↔
      Refused sampleEnv.engine sampleStore "u" (sampleUser "u" "ann") .givenName setEmail
          deactivate ∨
        (FormsAlike sampleEnv.engine (sampleUser "u" "ann") setEmail deactivate .givenName
            (.str "Ann") ∧
          (Idle sampleEnv.engine
              (setEmail ++ some (objectForm "Add" .givenName (.str "Ann")) :: deactivate) →
            Idle sampleEnv.engine
                (setEmail ++ some (pathForm "Add" .givenName (.str "Ann")) :: deactivate) ∨
              (sampleTicks 1).now = (sampleUser "u" "ann").updatedAt)) :=
  forms_agree_iff rfl (by decide) .givenName (.str "Ann") setEmail deactivate

/-- Other than for the emails, both forms of a text have the same outcome. -/
theorem text_forms_agree (hu : s.user id = some u)
    (hop : toLowerCase op = "replace" ∨ toLowerCase op = "add") {a : Attribute} (ha : a ≠ .email)
    (t : String) (pre post : List (Option PatchOperation)) :
    SameOutcome id
      (serve env ticks (.patchUser id (pre ++ some (pathForm op a (.str t)) :: post)) s)
      (serve env ticks (.patchUser id (pre ++ some (objectForm op a (.str t)) :: post)) s) := by
  have hvalue : ∀ b, lastValue b (pre ++ some (pathForm op a (.str t)) :: post) =
      lastValue b (pre ++ some (objectForm op a (.str t)) :: post) := by
    intro b
    unfold lastValue
    rw [lastSent_around (pathForm_sends a _ hop), lastSent_around (objectForm_sends a _ hop)]
    cases lastSent b post with
    | some m => rfl
    | none =>
      by_cases hb : b = a
      · subst hb
        cases b <;> first | rfl | exact absurd rfl ha
      · rw [if_neg hb, if_neg hb]
  refine (sameOutcome_iff env ticks hu _ _).mpr ((left_eq_iff _ _).mpr
    ⟨(rowLeft_forms_iff hop a _ pre post).mpr (Or.inr ?_), Or.inr (Or.inr (idle_congr hvalue))⟩)
  cases a with
  | email => exact absurd rfl ha
  | givenName => exact readAlike_str env.engine _ _ t
  | familyName => exact readAlike_str env.engine _ _ t
  | _ => exact trivial

/-- A null given name is stored as the text "null" by the path form and clears
the column in the object form; a plain text for emails is stored by the path
form only. -/
theorem forms_disagree :
    ¬SameOutcome "u"
        (serve sampleEnv sampleTicks (.patchUser "u" [some (pathForm "replace" .givenName .null)])
          sampleStore)
        (serve sampleEnv sampleTicks
          (.patchUser "u" [some (objectForm "replace" .givenName .null)]) sampleStore) ∧
      ¬SameOutcome "u"
        (serve sampleEnv sampleTicks
          (.patchUser "u" [some (pathForm "replace" .email (.str "a@b"))]) sampleStore)
        (serve sampleEnv sampleTicks
          (.patchUser "u" [some (objectForm "replace" .email (.str "a@b"))]) sampleStore) :=
  ⟨fun h => absurd h.leaves (by decide +kernel), fun h => absurd h.leaves (by decide +kernel)⟩

end Agreement

end OktaScim.PatchForms
