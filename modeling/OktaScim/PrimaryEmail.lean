import OktaScim.PatchForms
import OktaScim.ReadWriteBack

/-!
The email that is shown as primary. A user has one email column; each of the
four ways of sending a list of emails stores the value of its first entry,
wherever the entry stands that is marked as primary.
-/
namespace OktaScim.PrimaryEmail

open Programs Schema KeyedRows JsValues PrismaClient PrismaConstraints Bodies UserPatch
open Representations Requests RequestPrograms UserUpdates UserPatchMeaning PatchTranslation
open PatchComposition PatchForms LastWrites

section Lists

/-- The entry has `primary` true. -/
def marked (entry : Json) : Bool :=
  match entry.get "primary" with
  | some (.bool b) => b
  | _ => false

/-- An email entry with a nonempty string for its value. -/
def HasValue (entry : Json) (t : String) : Prop :=
  (∃ fields, entry = .obj fields) ∧ entry.get "value" = some (.str t) ∧ t ≠ ""

/-- The requests that send a list of emails. -/
inductive SendsEmails (items : List Json) : Request → Prop
  | post {salt : String} {body : List (String × Json)} {dto : CreateScimUserDto}
      (emails : (Json.obj body).get "emails" = some (.arr items))
      (read : readUserDto (.obj body) = some dto) : SendsEmails items (.createUser salt dto)
  | put {salt id : String} {body : List (String × Json)} {dto : UpdateScimUserDto}
      (emails : (Json.obj body).get "emails" = some (.arr items))
      (read : readUserDto (.obj body) = some dto) : SendsEmails items (.replaceUser salt id dto)
  | patchPath {id op : String} (replace : toLowerCase op = "replace") :
      SendsEmails items (.patchUser id [some ⟨some op, some "emails", some (.arr items)⟩])
  | patchObject {id op : String} {fields : List (String × Json)}
      (replace : toLowerCase op = "replace")
      (emails : (Json.obj fields).get "emails" = some (.arr items)) :
      SendsEmails items (.patchUser id [some ⟨some op, none, some (.obj fields)⟩])

variable {first : Json} {rest : List Json} {t : String}

/-- A validated body stores the value of its first entry. -/
theorem firstEmail_of_body {body : List (String × Json)} {dto : CreateScimUserDto}
    (hfirst : HasValue first t)
    (hemails : (Json.obj body).get "emails" = some (.arr (first :: rest)))
    (hread : readUserDto (.obj body) = some dto) : firstEmail dto.emails = .value t := by
  obtain ⟨⟨fields, rfl⟩, hvalue, _⟩ := hfirst
  have hemails' : readEmails (some (.arr (.obj fields :: rest))) = some dto.emails := by
    unfold readUserDto at hread
    dsimp only at hread
    split at hread
    · split at hread
      · simp only [Option.bind_eq_bind, Option.bind_eq_some_iff] at hread
        obtain ⟨_, _, _, _, emails, hemails', _, _, _, _, hdto⟩ := hread
        cases hdto
        rw [hemails] at hemails'
        exact hemails'
      · contradiction
    · contradiction
  simp only [readEmails] at hemails'
  split at hemails'
  · have hentry : emailOf (.obj fields) = some ⟨stringField (.obj fields) "value",
        booleanField (.obj fields) "primary", stringField (.obj fields) "type"⟩ := rfl
    rw [← Option.some.inj hemails', List.map_cons, hentry]
    simp [firstEmail, stringField, hvalue, readString]
  · contradiction

end Lists

section Requests

variable {env : Env} {ticks ticks' : ℕ → Tick} {s s' : Store} {id : String} {r : Request}
  {items : List Json} {first : Json} {rest : List Json} {t : String}

/-- A creation that succeeds shows the row that it has made. -/
theorem create_shows {salt : String} {dto : CreateScimUserDto} {a : Answer}
    (h : serve env ticks (.createUser salt dto) s = (.ok a, s')) :
    ∃ u', s'.user u'.id = some u' ∧ a = userAnswer env 201 u' ∧
      u'.email = writeColumn (firstEmail dto.emails) none := by
  unfold serve at h
  rw [handle_createUser] at h
  simp only [run, exec] at h
  cases hname : s.userNamed dto.userName with
  | some u =>
    rw [hname] at h
    cases h
  | none =>
    rw [hname] at h
    obtain ⟨u', hcreate, ha⟩ := run_call_pure_ok (exec env.engine) h
    obtain ⟨hid, _, rfl, rfl⟩ := userCreate_ok (rejects_eq_ok hcreate)
    refine ⟨_, ?_, ha, rfl⟩
    rw [newUser_id]
    simp only [Store.user, findRow_append_singleton, newUser_id, if_pos]
    rw [show findRow ScimUser.id _ s.users = none from hid]
    rfl

/-- An update that succeeds shows the row that it has left. -/
theorem update_shows {data : UserUpdateData} {upd : UserUpdate} {a : Answer}
    (hread : data.read env.engine = some upd)
    (h : run (exec env.engine) ticks
      (.call (.userFindUnique id) (UsersService.whenFound id (updateUserTail env id data))) s =
      (.ok a, s')) :
    ∃ u', s'.user id = some u' ∧ a = userAnswer env 200 u' ∧
      ∃ old, u'.email = writeColumn upd.email old := by
  rw [run_updateUser hread] at h
  cases hu : s.user id with
  | none => simp [hu] at h
  | some u =>
    simp only [hu] at h
    split at h
    · cases h
    · cases h
      exact ⟨_, user_after_update hu upd _, rfl, u.email, rfl⟩

/-- An operation that sends a text for the email stores it. -/
theorem patch_stores {o : PatchOperation} {a : Answer} {S : Sent}
    (hS : S.stored = some (some (.str t))) (hsent : sent .email o = some S)
    (h : serve env ticks (.patchUser id [some o]) s = (.ok a, s')) :
    ∃ u', s'.user id = some u' ∧ a = userAnswer env 200 u' ∧ u'.email = some t := by
  obtain ⟨f, upd, _, hf, hread, _, _, _⟩ := patchUser_ok h
  obtain ⟨_, _, _, _, _, hemail⟩ := read_patchFields hread
  have hlast : lastSent .email [some o] = some S := by
    rw [lastSent, lastWrite_cons]
    exact hsent
  rw [applyUserPatch_field hf, hlast, Option.bind_some, hS] at hemail
  simp only [Option.join_some, updateColumn, env.engine.update_str, Option.some.injEq] at hemail
  unfold serve at h
  rw [handle_patchUser_some env hf] at h
  obtain ⟨u', hu', ha, old, hold⟩ := update_shows hread h
  exact ⟨u', hu', ha, by rw [hold, ← hemail]; rfl⟩

/-- Whichever way the list is sent, the first entry's value is stored for the
user that the answer shows. -/
theorem stored_email (hsend : SendsEmails (first :: rest) r) (hfirst : HasValue first t)
    {status : ℕ} {rep : UserRep}
    (h : serve env ticks r s = (.ok ⟨status, .user rep⟩, s')) :
    ∃ u', s'.user rep.id = some u' ∧ u'.email = some t := by
  have hshown : ∀ {id : String} {u' : ScimUser}, s'.user id = some u' →
      (⟨status, .user rep⟩ : Answer) = userAnswer env 200 u' → s'.user rep.id = some u' := by
    intro id u' hu' ha
    cases ha
    have hid : u'.id = id := key_of_findRow hu'
    rw [← hid] at hu'
    exact hu'
  cases hsend with
  | @post salt body dto emails read =>
    have hemail := firstEmail_of_body hfirst emails read
    obtain ⟨u', hu', ha, hcolumn⟩ := create_shows h
    cases ha
    exact ⟨u', hu', by rw [hcolumn, hemail]; rfl⟩
  | @put salt id body dto emails read =>
    have hemail := firstEmail_of_body hfirst emails read
    unfold serve at h
    rw [handle_replaceUser] at h
    obtain ⟨u', hu', ha, old, hold⟩ := update_shows (read_replaceData env.engine _ dto) h
    refine ⟨u', hshown hu' ha, ?_⟩
    rw [hold, replacement, hemail]
    rfl
  | @patchPath id op replace =>
    obtain ⟨⟨fields, rfl⟩, hvalue, hne⟩ := hfirst
    have hsent : sent .email ⟨some op, some "emails", some (.arr (.obj fields :: rest))⟩ =
        some (.text (some (.str t))) := by
      have hreplaces : Replaces ⟨some op, some "emails", some (.arr (.obj fields :: rest))⟩ :=
        Or.inl (congrArg some replace)
      have hne : "emails" ≠ "" := by decide
      rw [sent_path hreplaces rfl hne]
      simp [pathSent, emailSent, chosen, hvalue]
    obtain ⟨u', hu', ha, hemail⟩ := patch_stores (t := t) (by simp [Sent.stored, jsString]) hsent h
    exact ⟨u', hshown hu' ha, hemail⟩
  | @patchObject id op fields replace emails =>
    obtain ⟨⟨entry, rfl⟩, hvalue, hne⟩ := hfirst
    have hsent :
        sent .email ⟨some op, none, some (.obj fields)⟩ = some (.asIs (some (.str t))) := by
      have hreplaces : Replaces ⟨some op, none, some (.obj fields)⟩ :=
        Or.inl (congrArg some replace)
      rw [sent_object hreplaces rfl rfl]
      simp [objectSent, entrySent, emails, hvalue]
    obtain ⟨u', hu', ha, hemail⟩ := patch_stores rfl hsent h
    exact ⟨u', hshown hu' ha, hemail⟩

/-- GET of the user shows the email as primary. -/
def ShowsPrimary (env : Env) (ticks : ℕ → Tick) (s : Store) (id w : String) : Prop :=
  ∃ rep, serve env ticks (.getUser id) s = (.ok ⟨200, .user rep⟩, s) ∧
    (⟨w, true⟩ : EmailRep) ∈ rep.emails

theorem showsPrimary_iff {u : ScimUser} (hu : s.user id = some u) (hemail : u.email = some t)
    (hne : t ≠ "") (w : String) : ShowsPrimary env ticks s id w ↔ w = t := by
  have hget : serve env ticks (.getUser id) s = (.ok (userAnswer env 200 u), s) := by
    unfold serve
    rw [handle_getUser]
    simp only [run, exec, hu]
  have hrep : (toScimUser u env.baseUrl).emails = [⟨t, true⟩] := by
    simp [toScimUser, hemail, hne]
  unfold ShowsPrimary
  rw [hget]
  constructor
  · rintro ⟨rep, hserve, hmem⟩
    cases hserve
    rw [hrep] at hmem
    simpa using hmem
  · rintro rfl
    exact ⟨_, rfl, by simp [hrep]⟩

/-- The email shown as primary is the one marked as primary exactly when the
first entry of the list has its value. -/
theorem primary_email_iff {m : Json} {w : String} (hsend : SendsEmails items r)
    (hvalues : ∀ entry ∈ items, ∃ t, HasValue entry t) (hmarked : items.filter marked = [m])
    (hw : m.get "value" = some (.str w)) {status : ℕ} {rep : UserRep}
    (h : serve env ticks r s = (.ok ⟨status, .user rep⟩, s')) :
    ShowsPrimary env ticks' s' rep.id w ↔
      items.head?.bind (fun entry => entry.get "value") = m.get "value" := by
  cases items with
  | nil => simp at hmarked
  | cons first rest =>
    obtain ⟨t, hfirst⟩ := hvalues first List.mem_cons_self
    obtain ⟨u', hu', hemail⟩ := stored_email hsend hfirst h
    rw [showsPrimary_iff hu' hemail hfirst.2.2, List.head?_cons, Option.bind_some, hfirst.2.1, hw,
      Option.some.injEq, Json.str.injEq]
    exact eq_comm

def emailEntry (value : String) (primary : Bool) : Json :=
  .obj [("value", .str value), ("primary", .bool primary)]

/-- The replacement of the emails by the marked `first` and another entry. -/
def markedFirst : List Json := [emailEntry "a@b" true, emailEntry "c@d" false]

def markedSecond : List Json := [emailEntry "a@b" false, emailEntry "c@d" true]

def emailsOperation (items : List Json) : PatchOperation :=
  ⟨some "replace", some "emails", some (.arr items)⟩

/-- The theorem at a list whose first entry is marked. -/
theorem primary_email_iff_first :
    ShowsPrimary sampleEnv sampleTicks (patchedStore (some "a@b") true) "u" "a@b" ↔
      markedFirst.head?.bind (fun entry => entry.get "value") =
        (emailEntry "a@b" true).get "value" := by
  have h : serve sampleEnv sampleTicks (.patchUser "u" [some (emailsOperation markedFirst)])
      sampleStore = (.ok ⟨200, .user _⟩, patchedStore (some "a@b") true) := rfl
  have hvalues : ∀ entry ∈ markedFirst, ∃ t, HasValue entry t := by
    intro entry hentry
    rcases List.mem_pair.mp hentry with rfl | rfl
    · exact ⟨"a@b", ⟨_, rfl⟩, rfl, by decide⟩
    · exact ⟨"c@d", ⟨_, rfl⟩, rfl, by decide⟩
  exact primary_email_iff (.patchPath (by decide)) hvalues rfl rfl h

/-- The second email is marked, and the first is shown as primary; so it goes
for the path form and for a body. -/
theorem second_email_not_shown :
    (serve sampleEnv sampleTicks (.patchUser "u" [some (emailsOperation markedSecond)])
        sampleStore).2 = patchedStore (some "a@b") true ∧
      ShowsPrimary sampleEnv sampleTicks (patchedStore (some "a@b") true) "u" "a@b" ∧
      ¬ShowsPrimary sampleEnv sampleTicks (patchedStore (some "a@b") true) "u" "c@d" ∧
      (serve sampleEnv sampleTicks (.replaceUser "" "u" ⟨"ann", .undefined, .undefined,
        .value (markedSecond.map emailOf), .undefined, .undefined⟩) sampleStore).2 =
        patchedStore (some "a@b") true := by
  have hu : (patchedStore (some "a@b") true).user "u" =
      some ⟨"u", none, "ann", none, none, some "a@b", true, none, 0, 1⟩ := rfl
  have hne : "a@b" ≠ "" := by decide
  refine ⟨by decide +kernel, (showsPrimary_iff hu rfl hne _).mpr rfl, fun hshown => ?_,
    by decide +kernel⟩
  exact absurd ((showsPrimary_iff hu rfl hne _).mp hshown) (by decide)

end Requests

end OktaScim.PrimaryEmail
