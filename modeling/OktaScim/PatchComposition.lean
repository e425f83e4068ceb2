import OktaScim.UserPatchMeaning
import OktaScim.UserUpdates

/-!
One user PATCH after the other, against both in one. Together the two lists
leave what the second one leaves behind the first, unless the second list ends
a column with a value that Prisma reads as no change, such as the missing value
of an email: in one PATCH this also takes back what the first list has sent.
-/
namespace OktaScim.PatchComposition

open Schema KeyedRows JsValues PrismaClient PrismaConstraints Bodies UserPatch UserPatchMeaning
open LastWrites Requests UserUpdates

/-- The columns that a PATCH can write. -/
structure PatchedColumns : Type where
  userName : String
  externalId : Option String
  givenName : Option String
  familyName : Option String
  email : Option String
  active : Bool
deriving DecidableEq

def patchedColumns (u : ScimUser) : PatchedColumns :=
  ⟨u.userName, u.externalId, u.givenName, u.familyName, u.email, u.active⟩

/-- What `ops₁` sends last for the column changes its content, and what `ops₂`
sends last for it is read as no change. -/
def Withdraws (E : Engine) (a : Attribute) (old : Option String)
    (ops₁ ops₂ : List (Option PatchOperation)) : Prop :=
  ∃ s₁ s₂ v₁ v₂ x, lastSent a ops₁ = some s₁ ∧ s₁.stored = some v₁ ∧
    updateColumn E v₁ = some x ∧ writeColumn x old ≠ old ∧
    lastSent a ops₂ = some s₂ ∧ s₂.stored = some v₂ ∧ updateColumn E v₂ = some .undefined

section Fields

variable {ops ops₁ ops₂ : List (Option PatchOperation)} {f f₁ f₂ f₃ : UserPatchFields}

/-- In the concatenated list the second list decides where it sends something. -/
theorem field_append (h₁ : applyUserPatch ops₁ = some f₁) (h₂ : applyUserPatch ops₂ = some f₂)
    (h₃ : applyUserPatch (ops₁ ++ ops₂) = some f₃) (a : Attribute) :
    fieldOf f₃ a = if (lastSent a ops₂).isSome then fieldOf f₂ a else fieldOf f₁ a := by
  rw [applyUserPatch_field h₃ a, lastSent_append]
  cases hs : lastSent a ops₂ with
  | none =>
    rw [applyUserPatch_field h₁ a]
    rfl
  | some s =>
    rw [applyUserPatch_field h₂ a, hs]
    rfl

/-- An attribute that is always converted is set wherever it is sent. -/
theorem converted_append (h₁ : applyUserPatch ops₁ = some f₁) (h₂ : applyUserPatch ops₂ = some f₂)
    (h₃ : applyUserPatch (ops₁ ++ ops₂) = some f₃) {a : Attribute}
    (ha : a = .active ∨ a = .userName ∨ a = .externalId) :
    fieldOf f₃ a = (fieldOf f₂ a).or (fieldOf f₁ a) := by
  rw [field_append h₁ h₂ h₃ a]
  cases hs : lastSent a ops₂ with
  | none => simp [field_of_nothing_sent h₂ hs]
  | some s =>
    obtain ⟨o, ho, hsent⟩ := mem_of_lastWrite hs
    obtain ⟨p, rfl, _⟩ := (applyUserPatch_isSome ops₂).mp (by rw [h₂]; rfl) o ho
    have hfits := sent_fits hsent
    have hconverted : ∀ w, s ≠ .asIs w := by
      rcases ha with rfl | rfl | rfl <;> obtain ⟨v, rfl⟩ := hfits <;> simp
    have hset : (fieldOf f₂ a).isSome = true :=
      Sent.isSome_of_stored hconverted (stored_of_lastSent h₂ hs)
    obtain ⟨v, hv⟩ := Option.isSome_iff_exists.mp hset
    simp [hv]

variable {E : Engine} {a : Attribute} {old : Option String} {x₁ x₂ x₃ : Nullable String}

/-- A column after both PATCHes, and after the one. -/
theorem column_eq_iff (h₁ : applyUserPatch ops₁ = some f₁) (h₂ : applyUserPatch ops₂ = some f₂)
    (h₃ : applyUserPatch (ops₁ ++ ops₂) = some f₃)
    (hx₁ : updateColumn E (fieldOf f₁ a) = some x₁)
    (hx₂ : updateColumn E (fieldOf f₂ a) = some x₂)
    (hx₃ : updateColumn E (fieldOf f₃ a) = some x₃) :
    writeColumn x₂ (writeColumn x₁ old) = writeColumn x₃ old ↔
      ¬Withdraws E a old ops₁ ops₂ := by
  rw [field_append h₁ h₂ h₃ a] at hx₃
  cases hs : lastSent a ops₂ with
  | none =>
    rw [field_of_nothing_sent h₂ hs] at hx₂
    rw [hs, Option.isSome_none, if_neg (by decide), hx₁] at hx₃
    cases hx₂
    cases hx₃
    refine iff_of_true rfl ?_
    rintro ⟨s₁, s₂, v₁, v₂, x, _, _, _, _, hlast, _⟩
    rw [hs] at hlast
    contradiction
  | some s =>
    rw [hs, Option.isSome_some, if_pos rfl, hx₂] at hx₃
    cases hx₃
    rw [writeColumn_eq_iff]
    constructor
    · intro hsame hwithdraws
      obtain ⟨s₁, s₂, v₁, v₂, x, hlast₁, hv₁, hx, hne, hlast₂, hv₂, hundef⟩ := hwithdraws
      rw [stored_of_lastSent h₁ hlast₁, Option.some.injEq] at hv₁
      rw [stored_of_lastSent h₂ hlast₂, Option.some.injEq] at hv₂
      rw [← hv₁, hx₁, Option.some.injEq] at hx
      rw [← hv₂, hx₂, Option.some.injEq] at hundef
      exact hne (hx ▸ hsame hundef)
    · intro hkeeps hundef
      by_contra hne
      cases hs₁ : lastSent a ops₁ with
      | none =>
        rw [field_of_nothing_sent h₁ hs₁] at hx₁
        cases hx₁
        exact hne rfl
      | some s₁ =>
        exact hkeeps ⟨s₁, s, _, _, x₁, hs₁, stored_of_lastSent h₁ hs₁, hx₁, hne, hs,
          stored_of_lastSent h₂ hs, hundef ▸ hx₂⟩

end Fields

section Rows

/-- The update data of a PATCH as it is read. -/
theorem read_patchFields {E : Engine} {f : UserPatchFields} {upd : UserUpdate}
    (h : (UsersService.patchData f).read E = some upd) :
    upd.userName = f.userName ∧ upd.active = f.active ∧
      updateColumn E (fieldOf f .externalId) = some upd.externalId ∧
      updateColumn E (fieldOf f .givenName) = some upd.givenName ∧
      updateColumn E (fieldOf f .familyName) = some upd.familyName ∧
      updateColumn E (fieldOf f .email) = some upd.email := by
  unfold UserUpdateData.read at h
  simp only [Option.bind_eq_bind, Option.bind_eq_some_iff] at h
  obtain ⟨externalId, hx, givenName, hg, familyName, hf, email, he, hupd⟩ := h
  cases hupd
  exact ⟨rfl, rfl, hx, hg, hf, he⟩

theorem getD_getD {α : Type} (x y : Option α) (a : α) : x.getD (y.getD a) = (x.or y).getD a := by
  cases x <;> rfl

/-- A text that is set is read as itself. -/
theorem column_of_texts {E : Engine} {t₁ t₂ t₃ : Option String} {x₁ x₂ x₃ : Nullable String}
    (h : t₃ = t₂.or t₁) (hx₁ : updateColumn E (t₁.map .str) = some x₁)
    (hx₂ : updateColumn E (t₂.map .str) = some x₂) (hx₃ : updateColumn E (t₃.map .str) = some x₃)
    (old : Option String) : writeColumn x₂ (writeColumn x₁ old) = writeColumn x₃ old := by
  subst h
  cases t₂ with
  | none =>
    cases hx₂
    rw [Option.none_or, hx₁] at hx₃
    cases hx₃
    rfl
  | some t =>
    rw [Option.map_some, updateColumn, E.update_str, Option.some.injEq] at hx₂
    rw [Option.some_or, Option.map_some, updateColumn, E.update_str, Option.some.injEq] at hx₃
    rw [← hx₂, ← hx₃]
    rfl

variable {E : Engine} {ops₁ ops₂ : List (Option PatchOperation)} {f₁ f₂ f₃ : UserPatchFields}
  {upd₁ upd₂ upd₃ : UserUpdate}

theorem patchedColumns_eq_iff (h₁ : applyUserPatch ops₁ = some f₁)
    (h₂ : applyUserPatch ops₂ = some f₂) (h₃ : applyUserPatch (ops₁ ++ ops₂) = some f₃)
    (hread₁ : (UsersService.patchData f₁).read E = some upd₁)
    (hread₂ : (UsersService.patchData f₂).read E = some upd₂)
    (hread₃ : (UsersService.patchData f₃).read E = some upd₃) (now₁ now₂ now₃ : ℕ)
    (u : ScimUser) :
    patchedColumns (upd₂.apply now₂ (upd₁.apply now₁ u)) = patchedColumns (upd₃.apply now₃ u) ↔
      ¬Withdraws E .givenName u.givenName ops₁ ops₂ ∧
        ¬Withdraws E .familyName u.familyName ops₁ ops₂ ∧
        ¬Withdraws E .email u.email ops₁ ops₂ := by
  obtain ⟨hname₁, hactive₁, hx₁, hg₁, hf₁, he₁⟩ := read_patchFields hread₁
  obtain ⟨hname₂, hactive₂, hx₂, hg₂, hf₂, he₂⟩ := read_patchFields hread₂
  obtain ⟨hname₃, hactive₃, hx₃, hg₃, hf₃, he₃⟩ := read_patchFields hread₃
  have huserName : f₃.userName = f₂.userName.or f₁.userName := by
    have happend := converted_append h₁ h₂ h₃ (Or.inr (Or.inl rfl))
    simp only [fieldOf, ← Option.map_or] at happend
    exact Option.map_injective (fun _ _ h => Json.str.inj h) happend
  have hactive : f₃.active = f₂.active.or f₁.active := by
    have happend := converted_append h₁ h₂ h₃ (Or.inl rfl)
    simp only [fieldOf, ← Option.map_or] at happend
    exact Option.map_injective (fun _ _ h => Json.bool.inj h) happend
  have hexternalId : f₃.externalId = f₂.externalId.or f₁.externalId := by
    have happend := converted_append h₁ h₂ h₃ (Or.inr (Or.inr rfl))
    simp only [fieldOf, ← Option.map_or] at happend
    exact Option.map_injective (fun _ _ h => Json.str.inj h) happend
  simp only [patchedColumns, UserUpdate.apply, PatchedColumns.mk.injEq, hname₁, hname₂, hname₃,
    hactive₁, hactive₂, hactive₃, getD_getD, huserName, hactive, true_and, and_true,
    column_of_texts hexternalId hx₁ hx₂ hx₃, column_eq_iff h₁ h₂ h₃ hg₁ hg₂ hg₃,
    column_eq_iff h₁ h₂ h₃ hf₁ hf₂ hf₃, column_eq_iff h₁ h₂ h₃ he₁ he₂ he₃]

end Rows

/-- Two PATCHes and the one of both lists leave the same columns exactly where
the second list does not withdraw what the first has sent. -/
theorem patch_append_iff {env : Env} {ticks₁ ticks₂ ticks₃ : ℕ → Tick} {id : String}
    {ops₁ ops₂ : List (Option PatchOperation)} {s s₁ s₂ s₃ : Store} {a₁ a₂ a₃ : Answer}
    (h₁ : serve env ticks₁ (.patchUser id ops₁) s = (.ok a₁, s₁))
    (h₂ : serve env ticks₂ (.patchUser id ops₂) s₁ = (.ok a₂, s₂))
    (h₃ : serve env ticks₃ (.patchUser id (ops₁ ++ ops₂)) s = (.ok a₃, s₃)) :
    (s₂.user id).map patchedColumns = (s₃.user id).map patchedColumns ↔
      ∀ u, s.user id = some u →
        ¬Withdraws env.engine .givenName u.givenName ops₁ ops₂ ∧
          ¬Withdraws env.engine .familyName u.familyName ops₁ ops₂ ∧
          ¬Withdraws env.engine .email u.email ops₁ ops₂ := by
  obtain ⟨f₁, upd₁, u, hf₁, hread₁, hu, _, rfl⟩ := patchUser_ok h₁
  obtain ⟨f₂, upd₂, u₁, hf₂, hread₂, hu₁, _, rfl⟩ := patchUser_ok h₂
  obtain ⟨f₃, upd₃, u', hf₃, hread₃, hu', _, rfl⟩ := patchUser_ok h₃
  have hmid : u₁ = upd₁.apply (ticks₁ 1).now u := by
    rw [user_after_update hu, Option.some.injEq] at hu₁
    exact hu₁.symm
  subst hmid
  have hrows := patchedColumns_eq_iff hf₁ hf₂ hf₃ hread₁ hread₂ hread₃ (ticks₁ 1).now
    (ticks₂ 1).now (ticks₃ 1).now u
  rw [user_after_update hu₁, user_after_update hu, hu, Option.map_some, Option.map_some,
    Option.some.injEq, hrows]
  simp

def setEmail : List (Option PatchOperation) :=
  [some ⟨some "replace", some "emails", some (.str "a@b")⟩]

def deactivate : List (Option PatchOperation) :=
  [some ⟨some "replace", none, some (.obj [("active", .bool false)])⟩]

/-- The object form of an email entry without its value. -/
def emptyEmail : List (Option PatchOperation) :=
  [some ⟨some "add", none, some (.obj [("emails", .arr [.obj []])])⟩]

/-- The user of the sample store, written at the given time. -/
def patchedStore (email : Option String) (active : Bool) : Store :=
  { sampleStore with users := [⟨"u", none, "ann", none, none, email, active, none, 0, 1⟩] }

/-- The answer that shows that user. -/
def patchedAnswer (email : Option String) (active : Bool) : Answer :=
  RequestPrograms.userAnswer sampleEnv 200
    ⟨"u", none, "ann", none, none, email, active, none, 0, 1⟩

/-- The theorem at an email that is set and a deactivation. -/
theorem patch_append_iff_sample :
    ((patchedStore (some "a@b") false).user "u").map patchedColumns =
        ((patchedStore (some "a@b") false).user "u").map patchedColumns ↔
      ∀ u, sampleStore.user "u" = some u →
        ¬Withdraws sampleEnv.engine .givenName u.givenName setEmail deactivate ∧
          ¬Withdraws sampleEnv.engine .familyName u.familyName setEmail deactivate ∧
          ¬Withdraws sampleEnv.engine .email u.email setEmail deactivate := by
  have h₁ : serve sampleEnv sampleTicks (.patchUser "u" setEmail) sampleStore =
      (.ok (patchedAnswer (some "a@b") true), patchedStore (some "a@b") true) := by
    decide +kernel
  have h₂ : serve sampleEnv sampleTicks (.patchUser "u" deactivate)
      (patchedStore (some "a@b") true) =
      (.ok (patchedAnswer (some "a@b") false), patchedStore (some "a@b") false) := by
    decide +kernel
  have h₃ : serve sampleEnv sampleTicks (.patchUser "u" (setEmail ++ deactivate)) sampleStore =
      (.ok (patchedAnswer (some "a@b") false), patchedStore (some "a@b") false) := by
    decide +kernel
  exact patch_append_iff h₁ h₂ h₃

/-- The email that was set before is gone only when both lists are one PATCH. -/
theorem missing_email_withdrawn :
    serve sampleEnv sampleTicks (.patchUser "u" setEmail) sampleStore =
        (.ok (patchedAnswer (some "a@b") true), patchedStore (some "a@b") true) ∧
      serve sampleEnv sampleTicks (.patchUser "u" emptyEmail) (patchedStore (some "a@b") true) =
        (.ok (patchedAnswer (some "a@b") true), patchedStore (some "a@b") true) ∧
      serve sampleEnv sampleTicks (.patchUser "u" (setEmail ++ emptyEmail)) sampleStore =
        (.ok (RequestPrograms.userAnswer sampleEnv 200 (sampleUser "u" "ann")), sampleStore) ∧
      ((patchedStore (some "a@b") true).user "u").map patchedColumns ≠
        (sampleStore.user "u").map patchedColumns := by
  decide +kernel

end OktaScim.PatchComposition
