import OktaScim.EqFilterGrammar
import OktaScim.FilterGrammar
import OktaScim.PrismaConstraints
import OktaScim.RequestPrograms
import Mathlib.Tactic.NormNum

/-!
The total of a filtered list. A filter that compares the indexed name with a
text counts exactly the resources with this name, letter by letter; the text is
what stands between the first quote and the last. Every other filter is ignored
and counts all resources.
-/
namespace OktaScim.FilteredLists

open Programs Schema PrismaClient PrismaConstraints ScimFilter EqFilterGrammar FilterGrammar
open Representations Requests RequestPrograms

section Attributes

def optional (value : Option String) : List Literal := value.toList.map .str

/-- The attributes of `meta`. -/
def metaValues (info : Meta) : Option String → List Literal
  | some "resourcetype" => [.str info.resourceType]
  | some "created" => [.str info.created]
  | some "lastmodified" => [.str info.lastModified]
  | some "location" => [.str info.location]
  | _ => []

/-- The attributes of an answered user, also under the schema's own name. -/
def userResource (rep : UserRep) : Resource where
  values path :=
    if path.urn = none ∨ path.urn = some (lower SCIM_USER_SCHEMA.toList) then
      match path.name, path.sub with
      | "schemas", none => rep.schemas.map .str
      | "id", none => [.str rep.id]
      | "externalid", none => optional rep.externalId
      | "username", none => [.str rep.userName]
      | "name", some "givenname" => optional rep.givenName
      | "name", some "familyname" => optional rep.familyName
      | "emails", none => rep.emails.map fun e => .str e.value
      | "emails", some "value" => rep.emails.map fun e => .str e.value
      | "emails", some "primary" => rep.emails.map fun e => .bool e.primary
      | "active", none => [.bool rep.active]
      | "meta", sub => metaValues rep.info sub
      | _, _ => []
    else []
  elements path :=
    if path = ⟨none, "emails", none⟩ then
      rep.emails.map fun e sub =>
        match sub.name with
        | "value" => [.str e.value]
        | "primary" => [.bool e.primary]
        | _ => []
    else []

/-- The attributes of an answered group. -/
def groupResource (rep : GroupRep) : Resource where
  values path :=
    if path.urn = none ∨ path.urn = some (lower SCIM_GROUP_SCHEMA.toList) then
      match path.name, path.sub with
      | "schemas", none => rep.schemas.map .str
      | "id", none => [.str rep.id]
      | "externalid", none => optional rep.externalId
      | "displayname", none => [.str rep.displayName]
      | "members", none => rep.members.map fun m => .str m.value
      | "members", some "value" => rep.members.map fun m => .str m.value
      | "members", some "display" => rep.members.map fun m => .str m.display
      | "meta", sub => metaValues rep.info sub
      | _, _ => []
    else []
  elements path :=
    if path = ⟨none, "members", none⟩ then
      rep.members.map fun m sub =>
        match sub.name with
        | "value" => [.str m.value]
        | "display" => [.str m.display]
        | _ => []
    else []

/-- The comparison of an attribute with a text. -/
def equals (attributeName : String) (v : List Char) : Filter :=
  .compare ⟨none, lower attributeName.toList, none⟩ .eq (.str (String.ofList v))

end Attributes

/-- A text that a filter holds as it is: no quote, backslash or control
character, and no line terminator. -/
def IsPlain (v : List Char) : Prop :=
  (∀ c ∈ v, c ≠ '"' ∧ c ≠ '\\' ∧ 32 ≤ c.toNat) ∧ IsLine v

/-- What a filter makes of the total: resources are counted exactly when the
attribute is the compared text, quotes inside it included. With a plain text
and single blanks, this is what the text means as a filter. A filter that does
not compare the attribute with a text at all is ignored. -/
structure CountsExactly {α : Type} (attributeName : String) (resource : α → Resource)
    (rows : List α) (f : String) (total : ℕ) : Prop where
  compared : ∀ w₁ e w₂ v, Splits f.toList attributeName.toList w₁ e w₂ v →
    total = (rows.filter fun row => satisfies (equals attributeName v) (resource row)).length
  meant : ∀ e v, Splits f.toList attributeName.toList [' '] e [' '] v → IsPlain v →
    Derives f.toList (equals attributeName v)
  ignored : (∀ w₁ e w₂ v, ¬Splits f.toList attributeName.toList w₁ e w₂ v) → total = rows.length

/-- The `where` clause holds the text that the attribute is compared with. -/
theorem listWhere_eq_some_iff {f attributeName v : String} :
    UsersService.listWhere (parseEqFilter (some f)) attributeName = some v ↔
      ∃ w₁ e w₂, Splits f.toList attributeName.toList w₁ e w₂ v.toList := by
  rw [← parseEqFilter_eq_some_iff]
  cases hparse : parseEqFilter (some f) with
  | none => simp [UsersService.listWhere]
  | some parsed =>
    obtain ⟨name, value⟩ := parsed
    simp only [UsersService.listWhere]
    by_cases hname : name = attributeName
    · simp [hname]
    · simp [hname]

theorem listWhere_eq_none_iff {f attributeName : String} :
    UsersService.listWhere (parseEqFilter (some f)) attributeName = none ↔
      ∀ w₁ e w₂ v, ¬Splits f.toList attributeName.toList w₁ e w₂ v := by
  constructor
  · intro h w₁ e w₂ v hsplit
    have hsome : UsersService.listWhere (parseEqFilter (some f)) attributeName =
        some (String.ofList v) :=
      listWhere_eq_some_iff.mpr ⟨w₁, e, w₂, by rwa [String.toList_ofList]⟩
    rw [h] at hsome
    contradiction
  · intro h
    rw [Option.eq_none_iff_forall_ne_some]
    intro v hv
    obtain ⟨w₁, e, w₂, hsplit⟩ := listWhere_eq_some_iff.mp hv
    exact h w₁ e w₂ v.toList hsplit

/-- The supported filter between single blanks is well formed. -/
theorem derives_equals {f attributeName : String} {e v : List Char}
    (hname : IsName attributeName.toList) (h : Splits f.toList attributeName.toList [' '] e [' '] v)
    (hv : IsPlain v) : Derives f.toList (equals attributeName v) := by
  rw [h.text]
  have hop : OpText e .eq := .eq (by rw [Keyword, lower, h.op])
  exact .compare (.name hname) hop (.str (stringText_self hv.1))

/-- Counting by the `where` clause is counting by the filter, when the rows
that match a text are those whose attribute is this text. -/
theorem countsExactly_of_listWhere {α : Type} {attributeName f : String} {resource : α → Resource}
    {rows : List α} (matching : Option String → List α) (name : α → String)
    (hname : IsName attributeName.toList)
    (hvalues : ∀ row, (resource row).values ⟨none, lower attributeName.toList, none⟩ =
      [.str (name row)])
    (hall : matching none = rows)
    (hsome : ∀ v, matching (some v) = rows.filter fun row => name row = v) :
    CountsExactly attributeName resource rows f
      (matching (UsersService.listWhere (parseEqFilter (some f)) attributeName)).length := by
  constructor
  · intro w₁ e w₂ v hsplit
    have hwhere : UsersService.listWhere (parseEqFilter (some f)) attributeName =
        some (String.ofList v) :=
      listWhere_eq_some_iff.mpr ⟨w₁, e, w₂, by rwa [String.toList_ofList]⟩
    have hsatisfies : ∀ row, satisfies (equals attributeName v) (resource row) =
        decide (name row = String.ofList v) := by
      intro row
      simp only [equals, satisfies, hvalues, List.any_cons, List.any_nil, CompareOp.holds,
        Bool.or_false]
      rw [Bool.eq_iff_iff, beq_iff_eq, decide_eq_true_eq, Literal.str.injEq]
    rw [hwhere, hsome]
    simp only [hsatisfies]
  · exact fun e v hsplit hplain => derives_equals hname hsplit hplain
  · intro hnone
    rw [listWhere_eq_none_iff.mpr hnone, hall]

section Lists

variable {env : Env} {ticks : ℕ → Tick} {s s' : Store} {pagination : Pagination} {a : Answer}

/-- A list response with the page `reps`. -/
def listResponse {α : Type} (totalResults : ℕ) (startIndex : ℚ) (reps : List α) :
    ListResponse α :=
  ⟨[SCIM_LIST_RESPONSE_SCHEMA], totalResults, startIndex, reps.length, reps⟩

theorem serve_listUsers_ok {filter : Option String}
    (h : serve env ticks (.listUsers filter pagination) s = (.ok a, s')) :
    s' = s ∧ ∃ reps, a = ⟨200, .userList (listResponse
      (matchingUsers (UsersService.listWhere (parseEqFilter filter) "userName") s).length
      pagination.startIndex reps)⟩ := by
  unfold serve at h
  rw [handle_listUsers] at h
  obtain ⟨r, hexec, rfl⟩ := run_call_pure_ok (exec env.engine) h
  obtain ⟨rfl, htotal⟩ := userList_ok (rejects_eq_ok hexec)
  refine ⟨rfl, r.2.map fun u => toScimUser u env.baseUrl, ?_⟩
  rw [listResponse, htotal, List.length_map]

theorem serve_listGroups_ok {filter : Option String}
    (h : serve env ticks (.listGroups filter pagination) s = (.ok a, s')) :
    s' = s ∧ ∃ reps, a = ⟨200, .groupList (listResponse
      (matchingGroups (UsersService.listWhere (parseEqFilter filter) "displayName") s).length
      pagination.startIndex reps)⟩ := by
  unfold serve at h
  rw [handle_listGroups] at h
  obtain ⟨r, hexec, rfl⟩ := run_call_pure_ok (exec env.engine) h
  obtain ⟨rfl, htotal⟩ := groupList_ok (rejects_eq_ok hexec)
  refine ⟨rfl, r.2.map fun g => toScimGroup g env.baseUrl, ?_⟩
  rw [listResponse, htotal, List.length_map]

/-- A list request is answered, whatever its filter, when the database takes
the numbers of its page. -/
theorem serve_list_answered (env : Env) (ticks : ℕ → Tick) (s : Store) (h : Pageable pagination)
    (filter : Option String) :
    (∃ a, serve env ticks (.listUsers filter pagination) s = (.ok a, s)) ∧
      ∃ a, serve env ticks (.listGroups filter pagination) s = (.ok a, s) := by
  unfold serve
  rw [handle_listUsers, handle_listGroups]
  simp only [run, exec, userList, groupList, window_eq, if_pos h, rejects]
  exact ⟨⟨_, rfl⟩, ⟨_, rfl⟩⟩

theorem serve_list_refused (env : Env) (ticks : ℕ → Tick) (s : Store) (h : ¬Pageable pagination)
    (filter : Option String) :
    serve env ticks (.listUsers filter pagination) s = (.error (.prisma .other), s) ∧
      serve env ticks (.listGroups filter pagination) s = (.error (.prisma .other), s) := by
  unfold serve
  rw [handle_listUsers, handle_listGroups]
  simp only [run, exec, userList, groupList, window_eq, if_neg h, rejects, and_self]

theorem skip_one : (max (Doubles.sub 1 1) 0 : ℚ) = 0 := by
  rw [Doubles.sub, sub_self, Doubles.nearest_zero, max_self]

/-- A first page of less than 2 ^ 63 resources. -/
theorem pageable_first {count : ℕ} (h : count < 2 ^ 63) : Pageable ⟨1, count⟩ := by
  constructor
  · rw [Pagination.skip, skip_one, FitsInt64]
    norm_num
  · change (count : ℚ) < 2 ^ 63
    exact_mod_cast h

end Lists

/-- Every list that is answered has the total of `CountsExactly`; it is answered
exactly when the database takes the numbers of its page. -/
theorem filtered_list_counts (env : Env) (ticks : ℕ → Tick) (s : Store) (f : String)
    (pagination : Pagination) :
    (∀ a s', serve env ticks (.listUsers (some f) pagination) s = (.ok a, s') →
      ∃ total reps, a = ⟨200, .userList (listResponse total pagination.startIndex reps)⟩ ∧
        CountsExactly "userName" (fun u => userResource (toScimUser u env.baseUrl)) s.users f
          total) ∧
    (∀ a s', serve env ticks (.listGroups (some f) pagination) s = (.ok a, s') →
      ∃ total reps, a = ⟨200, .groupList (listResponse total pagination.startIndex reps)⟩ ∧
        CountsExactly "displayName"
          (fun g => groupResource (toScimGroup (withMembers s g) env.baseUrl)) s.groups f
          total) ∧
    (Pageable pagination →
      (∃ a, serve env ticks (.listUsers (some f) pagination) s = (.ok a, s)) ∧
        ∃ a, serve env ticks (.listGroups (some f) pagination) s = (.ok a, s)) ∧
    (¬Pageable pagination →
      serve env ticks (.listUsers (some f) pagination) s = (.error (.prisma .other), s) ∧
        serve env ticks (.listGroups (some f) pagination) s = (.error (.prisma .other), s)) := by
  refine ⟨fun a s' h => ?_, fun a s' h => ?_,
    fun hpage => serve_list_answered env ticks s hpage (some f),
    fun hpage => serve_list_refused env ticks s hpage (some f)⟩
  · obtain ⟨rfl, reps, ha⟩ := serve_listUsers_ok h
    have hname : IsName "userName".toList :=
      ⟨'u', "serName".toList, rfl, rfl, List.all_eq_true.mp (by decide)⟩
    refine ⟨_, reps, ha, ?_⟩
    exact countsExactly_of_listWhere (matchingUsers · s') ScimUser.userName hname (fun u => rfl)
      rfl (fun v => rfl)
  · obtain ⟨rfl, reps, ha⟩ := serve_listGroups_ok h
    have hname : IsName "displayName".toList :=
      ⟨'d', "isplayName".toList, rfl, rfl, List.all_eq_true.mp (by decide)⟩
    refine ⟨_, reps, ha, ?_⟩
    exact countsExactly_of_listWhere (matchingGroups · s') ScimGroup.displayName hname
      (fun g => rfl) rfl (fun v => rfl)

theorem filtered_list_counts_sample :
    ∃ a b : Answer,
      (∃ total reps, a = ⟨200, .userList (listResponse total 1 reps)⟩ ∧
        CountsExactly "userName" (fun u => userResource (toScimUser u sampleEnv.baseUrl))
          sampleStore.users "userName eq \"ann\"" total) ∧
      ∃ total reps, b = ⟨200, .groupList (listResponse total 1 reps)⟩ ∧
        CountsExactly "displayName"
          (fun g => groupResource (toScimGroup (withMembers sampleStore g) sampleEnv.baseUrl))
          sampleStore.groups "userName eq \"ann\"" total := by
  have hcounts :=
    filtered_list_counts sampleEnv sampleTicks sampleStore "userName eq \"ann\"" ⟨1, (100 : ℕ)⟩
  obtain ⟨⟨a, ha⟩, b, hb⟩ := hcounts.2.2.1 (pageable_first (by omega))
  exact ⟨a, b, hcounts.1 a _ ha, hcounts.2.1 b _ hb⟩

/-- The text `x` is no filter, and a list request with it is answered with all users. -/
theorem unparsable_filter_lists_all :
    (∃ reps, serve sampleEnv sampleTicks (.listUsers (some "x") ⟨1, (100 : ℕ)⟩) sampleStore =
      (.ok ⟨200, .userList (listResponse 1 1 reps)⟩, sampleStore)) ∧
    ∀ filter, ¬Derives "x".toList filter := by
  constructor
  · have hanswered := serve_list_answered sampleEnv sampleTicks sampleStore
      (@pageable_first 100 (by omega)) (some "x")
    obtain ⟨a, ha⟩ := hanswered.1
    obtain ⟨_, reps, rfl⟩ := serve_listUsers_ok ha
    exact ⟨reps, ha⟩
  · intro filter h
    have hspace := space_mem_of_derives h
    exact absurd hspace (by decide)

end OktaScim.FilteredLists
