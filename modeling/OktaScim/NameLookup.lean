import OktaScim.ListPages

/-!
The existence check before provisioning: a list request whose filter compares
the unique name with a text, against the conflict that a creation under this
name ends in. The client writes the text as a JSON string literal. The filter
takes what stands between the quotes as it is, so the two agree exactly when
the literal has no escape and no line terminator, or by accident of the names
that are stored.
-/
namespace OktaScim.NameLookup

open Programs Schema KeyedRows PrismaClient PrismaConstraints JsValues ScimFilter EqFilterGrammar
open FilterGrammar Bodies Representations Requests RequestPrograms FilteredLists QueryNumbers
open TiedSorts ListPages

section Literals

/-- A literal is at least as long as its text, and longer if it has an escape. -/
theorem length_of_stringText {raw text : List Char} (h : StringText raw text) :
    text.length ≤ raw.length ∧ ('\\' ∈ raw → text.length < raw.length) := by
  induction h with
  | nil => simp
  | plain hquote hback _ _ ih =>
    refine ⟨by simpa using ih.1, fun hmem => ?_⟩
    rcases List.mem_cons.mp hmem with heq | hmem
    · exact absurd heq.symm hback
    · simpa using ih.2 hmem
  | escape _ _ ih =>
    simp only [List.length_cons]
    omega
  | code _ _ _ ih =>
    simp only [List.length_cons, List.length_append]
    omega
  | pair _ _ _ _ _ _ _ ih =>
    simp only [List.length_cons, List.length_append]
    omega

/-- A literal without escapes is its own text. -/
theorem eq_of_no_escape {raw text : List Char} (h : StringText raw text) (hraw : '\\' ∉ raw) :
    raw = text := by
  induction h with
  | nil => rfl
  | plain _ _ _ _ ih => rw [ih fun hmem => hraw (List.mem_cons_of_mem _ hmem)]
  | escape _ _ _ => simp at hraw
  | code _ _ _ _ => simp at hraw
  | pair _ _ _ _ _ _ _ _ => simp at hraw

theorem stringText_eq_iff {raw text : List Char} (h : StringText raw text) :
    raw = text ↔ '\\' ∉ raw := by
  constructor
  · intro heq hmem
    have hlen := (length_of_stringText h).2 hmem
    rw [heq] at hlen
    omega
  · exact eq_of_no_escape h

end Literals

section Filters

/-- The filter `attributeName eq "raw"`. -/
def nameFilter (attributeName : String) (raw : List Char) : String :=
  String.ofList (attributeName.toList ++ (" eq \"".toList ++ (raw ++ ['"'])))

theorem blank_space : IsBlank [' '] :=
  ⟨List.cons_ne_nil _ _, List.forall_mem_singleton.mpr rfl⟩

theorem nameFilter_splits {attributeName : String} (hname : IsAttribute attributeName.toList)
    {raw : List Char} (hraw : IsLine raw) :
    Splits (nameFilter attributeName raw).toList attributeName.toList [' '] ['e', 'q'] [' ']
      raw where
  name := hname
  before := blank_space
  op := rfl
  behind := blank_space
  value := hraw
  text := by rw [nameFilter, String.toList_ofList]; rfl

theorem blank_cons {w rest rest' : List Char} {c : Char} (hw : ∀ d ∈ w, isSpace d = true)
    (hc : isSpace c = false) (h : c :: rest = w ++ rest') : w = [] := by
  cases w with
  | nil => rfl
  | cons d w =>
    rw [List.cons_append, List.cons.injEq] at h
    have hd := hw d (List.mem_cons_self ..)
    rw [← h.1, hc] at hd
    contradiction

/-- However the filter is split, its value is what stands between the quotes. -/
theorem value_of_splits {attributeName : String} {raw w₁ e w₂ v : List Char}
    (h : Splits (nameFilter attributeName raw).toList attributeName.toList w₁ e w₂ v) :
    v = raw := by
  have htext := h.text
  rw [nameFilter, String.toList_ofList] at htext
  replace htext : ' ' :: 'e' :: 'q' :: ' ' :: '"' :: (raw ++ ['"']) =
    w₁ ++ (e ++ (w₂ ++ '"' :: (v ++ ['"']))) := List.append_cancel_left htext
  obtain ⟨x, y, rfl, _⟩ := isEq_cases h.op
  have hafter : ∀ w : List Char, IsBlank w → ∀ c rest rest', isSpace c = false →
      ' ' :: c :: rest = w ++ rest' → c :: rest = rest' := by
    intro w hw c rest rest' hc heq
    cases w with
    | nil => exact absurd rfl hw.1
    | cons d w =>
      rw [List.cons_append, List.cons.injEq] at heq
      have hnil := blank_cons (fun d hd => hw.2 d (List.mem_cons_of_mem _ hd)) hc heq.2
      rw [hnil] at heq
      exact heq.2
  have hop := hafter w₁ h.before 'e' _ _ (by decide) htext
  simp only [List.cons_append, List.nil_append, List.cons.injEq] at hop
  have hvalue := hafter w₂ h.behind '"' _ _ (by decide) hop.2.2
  simp only [List.cons.injEq, true_and] at hvalue
  exact (List.append_cancel_right hvalue).symm

theorem listWhere_nameFilter {attributeName : String} (hname : IsAttribute attributeName.toList)
    {raw : List Char} (hraw : IsLine raw) :
    UsersService.listWhere (parseEqFilter (some (nameFilter attributeName raw))) attributeName =
      some (String.ofList raw) := by
  apply listWhere_eq_some_iff.mpr
  rw [String.toList_ofList]
  exact ⟨_, _, _, nameFilter_splits hname hraw⟩

theorem listWhere_nameFilter_none {attributeName : String} {raw : List Char}
    (hraw : ¬IsLine raw) :
    UsersService.listWhere (parseEqFilter (some (nameFilter attributeName raw))) attributeName =
      none := by
  apply listWhere_eq_none_iff.mpr
  intro w₁ e w₂ v hsplit
  have hv := value_of_splits hsplit
  rw [hv] at hsplit
  exact hraw hsplit.value

end Filters

section Creations

variable {env : Env} {ticks : ℕ → Tick} {s : Store}

/-- A new user's id is no user's id. -/
theorem createUser_conflict_iff (hfresh : ∀ n, s.user (ticks n).uuid = none) (salt : String)
    (dto : CreateScimUserDto) :
    (answerOf (serve env ticks (.createUser salt dto) s).1).status = 409 ↔
      dto.userName ∈ s.users.map ScimUser.userName := by
  have hnamed : dto.userName ∈ s.users.map ScimUser.userName ↔
      (s.userNamed dto.userName).isSome = true := by
    rw [Store.userNamed, findRow_isSome_iff, List.mem_map]
  rw [hnamed]
  unfold serve
  rw [handle_createUser]
  cases hname : s.userNamed dto.userName with
  | some u => simp [run, exec, hname, answerOf, toScimError]
  | none =>
    have hcreate : userCreate (ticks 1) (UsersService.createData (env.bcrypt.hash salt) dto) s =
        .ok (newUser (ticks 1) (UsersService.createData (env.bcrypt.hash salt) dto),
          { s with users := s.users ++
            [newUser (ticks 1) (UsersService.createData (env.bcrypt.hash salt) dto)] }) := by
      simp [userCreate, hfresh 1, UsersService.createData, hname]
    simp [run, exec, hname, createUserTail, hcreate, rejects, answerOf, userAnswer]

theorem readMembers_eq_some {members : List (Option String)} {userIds : List String}
    (h : readMembers members = some userIds) : members = userIds.map some := by
  unfold readMembers at h
  induction members generalizing userIds with
  | nil =>
    simp only [List.mapM_nil, Option.pure_def, Option.some.injEq] at h
    rw [← h, List.map_nil]
  | cons m members ih =>
    simp only [List.mapM_cons, Option.bind_eq_bind, Option.bind_eq_some_iff] at h
    obtain ⟨u, rfl, us, hus, hids⟩ := h
    simp only [Option.pure_def, Option.some.injEq] at hids
    rw [← hids, List.map_cons, ← ih hus]

/-- New members of a new group are only refused for a user that does not exist. -/
theorem insertMembers_error {groupId : String} {userIds : List String} {e : PrismaError}
    (hnodup : userIds.Nodup) (hnew : ∀ u ∈ userIds, (⟨groupId, u⟩ : ScimGroupMember) ∉ s.members)
    (h : insertMembers groupId userIds s = .error e) : e = .P2003 := by
  induction userIds generalizing s with
  | nil => simp [insertMembers] at h
  | cons u us ih =>
    obtain ⟨hu, hus⟩ := List.nodup_cons.mp hnodup
    simp only [insertMembers] at h
    cases hins : insertMember ⟨groupId, u⟩ s with
    | ok s' =>
      obtain ⟨_, _, _, rfl⟩ := insertMember_ok hins
      rw [hins] at h
      exact ih hus (new_behind_member hu hnew) h
    | error e' =>
      simp only [hins, Except.error.injEq] at h
      unfold insertMember at hins
      rw [if_neg (hnew u (List.mem_cons_self ..))] at hins
      split at hins
      · contradiction
      · rw [← h]
        injection hins with hins
        exact hins.symm

theorem groupCreate_error {t : Tick} {data : GroupCreateData} {e : PrismaError} (hs : s.Valid)
    (hfresh : s.group t.uuid = none) (hname : s.groupNamed data.displayName = none)
    (hnodup : data.members.Nodup) (h : groupCreate t data s = .error e) : e ≠ .P2002 := by
  unfold groupCreate at h
  cases hread : readMembers data.members with
  | none =>
    simp only [hread, Except.error.injEq] at h
    rw [← h]
    decide
  | some userIds =>
    have hids : userIds.Nodup := by
      rw [readMembers_eq_some hread] at hnodup
      exact hnodup.of_map _
    have hnew : ∀ u ∈ userIds, (⟨t.uuid, u⟩ : ScimGroupMember) ∉ s.members := by
      intro u _ hmem
      have hgroup := hs.memberGroup _ hmem
      rw [hfresh] at hgroup
      contradiction
    simp only [hread, hfresh, hname, Option.isSome_none, Bool.false_eq_true, or_self, if_false] at h
    cases hins : insertMembers t.uuid userIds
        { s with groups := s.groups ++ [newGroup t data] } with
    | ok s' => simp [hins] at h
    | error e' =>
      simp only [hins, Except.error.injEq] at h
      rw [← h, insertMembers_error (s := { s with groups := s.groups ++ [newGroup t data] })
        hids hnew hins]
      decide

/-- A new group's id is no group's id, and its body lists no member twice. -/
theorem createGroup_conflict_iff (hs : s.Valid) (hfresh : ∀ n, s.group (ticks n).uuid = none)
    (dto : CreateScimGroupDto)
    (hmembers : ∀ members, GroupsService.memberCreates dto.members = some members →
      members.Nodup) :
    (answerOf (serve env ticks (.createGroup dto) s).1).status = 409 ↔
      dto.displayName ∈ s.groups.map ScimGroup.displayName := by
  have hnamed : dto.displayName ∈ s.groups.map ScimGroup.displayName ↔
      (s.groupNamed dto.displayName).isSome = true := by
    rw [Store.groupNamed, findRow_isSome_iff, List.mem_map]
  rw [hnamed]
  unfold serve
  rw [handle_createGroup]
  cases hname : s.groupNamed dto.displayName with
  | some g => simp [run, exec, hname, answerOf, toScimError]
  | none =>
    simp only [run, exec, hname, createGroupTail, Option.isSome_none, Bool.false_eq_true, iff_false]
    cases hcreates : GroupsService.memberCreates dto.members with
    | none => simp [run, answerOf, toScimError, internalServerError]
    | some members =>
      simp only [run, exec]
      cases hcreate : groupCreate (ticks 1) ⟨dto.displayName, dto.externalId, members⟩ s with
      | ok r => simp [rejects, answerOf, groupAnswer]
      | error e =>
        have hcode := groupCreate_error hs (hfresh 1) hname (hmembers members hcreates) hcreate
        cases e <;> simp_all [rejects, answerOf, toScimError, mapPrismaError, internalServerError]

end Creations

/-- The literal says its text, or what the filter makes of it is found in
accord with the stored names all the same. -/
def FoundAsNamed (names : List String) (u : String) (raw : List Char) : Prop :=
  (IsLine raw ∧ ('\\' ∉ raw ∨ (u ∉ names ∧ String.ofList raw ∉ names))) ∨
    (¬IsLine raw ∧ ∀ n ∈ names, n = u)

section Pages

variable {α β : Type} {rows : List α} {createdAt : α → ℕ} {id name : α → String} {rep : α → β}

theorem length_named_le (hnames : (rows.map name).Nodup) (v : String) :
    (rows.filter fun x => name x = v).length ≤ 1 := by
  have hcount := List.nodup_iff_count_le_one.mp hnames v
  rw [List.count, List.countP_map, List.countP_eq_length_filter] at hcount
  refine le_trans (le_of_eq ?_) hcount
  congr 1

theorem firstPage_of_short (t : Tick) (hshort : rows.length ≤ 1) :
    (queried createdAt id rows t).take 100 = rows := by
  have hperm := queried_perm createdAt id rows t
  have hlen := hperm.length_eq
  have heq : queried createdAt id rows t = rows := by
    cases rows with
    | nil => exact List.perm_nil.mp hperm
    | cons x rest =>
      cases rest with
      | nil => exact List.perm_singleton.mp hperm
      | cons y rest => simp at hshort
  rw [heq, List.take_of_length_le (by omega)]

/-- What a `where` clause finds, against the rows named `u`. -/
theorem found_some_iff (hnames : (rows.map name).Nodup) (t : Tick)
    (hrep : ∀ x y, rep x = rep y → name x = name y) (u v : String) :
    (((queried createdAt id (rows.filter fun x => name x = v) t).take 100).map rep =
        (rows.filter fun x => name x = u).map rep) ↔
      v = u ∨ (u ∉ rows.map name ∧ v ∉ rows.map name) := by
  rw [firstPage_of_short t (length_named_le hnames v)]
  constructor
  · intro h
    by_cases hv : v ∈ rows.map name
    · left
      obtain ⟨x, hx, hxv⟩ := List.mem_map.mp hv
      have hmem : rep x ∈ (rows.filter fun x => name x = v).map rep :=
        List.mem_map_of_mem (List.mem_filter.mpr ⟨hx, by simpa using hxv⟩)
      rw [h] at hmem
      obtain ⟨y, hy, hyx⟩ := List.mem_map.mp hmem
      have hyu : name y = u := by simpa using (List.mem_filter.mp hy).2
      rw [← hxv, ← hyu, hrep y x hyx]
    · right
      refine ⟨fun hu => ?_, hv⟩
      obtain ⟨x, hx, hxu⟩ := List.mem_map.mp hu
      have hmem : rep x ∈ (rows.filter fun x => name x = u).map rep :=
        List.mem_map_of_mem (List.mem_filter.mpr ⟨hx, by simpa using hxu⟩)
      rw [← h] at hmem
      obtain ⟨y, hy, _⟩ := List.mem_map.mp hmem
      have hyv : name y = v := by simpa using (List.mem_filter.mp hy).2
      exact hv (List.mem_map.mpr ⟨y, (List.mem_filter.mp hy).1, hyv⟩)
  · intro h
    have hempty : ∀ w, w ∉ rows.map name → (rows.filter fun x => name x = w) = [] := by
      intro w hw
      rw [List.filter_eq_nil_iff]
      intro x hx hxw
      exact hw (List.mem_map.mpr ⟨x, hx, by simpa using hxw⟩)
    rcases h with rfl | ⟨hu, hv⟩
    · rfl
    · rw [hempty u hu, hempty v hv]

/-- The first page of all rows, against the rows named `u`. -/
theorem found_all_iff (hnames : (rows.map name).Nodup) (t : Tick) (u : String) :
    (((queried createdAt id rows t).take 100).map rep =
        (rows.filter fun x => name x = u).map rep) ↔ ∀ n ∈ rows.map name, n = u := by
  constructor
  · intro h
    have hlen := congrArg List.length h
    have hshort := length_named_le hnames u
    simp only [List.length_map, List.length_take,
      (queried_perm createdAt id rows t).length_eq] at hlen
    have hall : (rows.filter fun x => name x = u).length = rows.length := by omega
    intro n hn
    obtain ⟨x, hx, rfl⟩ := List.mem_map.mp hn
    simpa using List.length_filter_eq_length_iff.mp hall x hx
  · intro h
    have hself : (rows.filter fun x => name x = u) = rows := by
      rw [List.filter_eq_self]
      intro x hx
      simpa using h (name x) (List.mem_map_of_mem hx)
    have hshort := length_named_le hnames u
    rw [hself] at hshort ⊢
    rw [firstPage_of_short t hshort]

theorem length_named_eq_zero_iff (v : String) :
    (rows.filter fun x => name x = v).length = 0 ↔ v ∉ rows.map name := by
  rw [List.length_eq_zero_iff, List.filter_eq_nil_iff]
  simp

/-- What a list request finds for a name, in terms of the literal. -/
theorem found_iff (createdAt : α → ℕ) (id : α → String) (rep : α → β) {attributeName u : String}
    {raw : List Char} (hname : IsAttribute attributeName.toList) (hnames : (rows.map name).Nodup)
    (t : Tick) (matching : Option String → List α) (hall : matching none = rows)
    (hsome : ∀ v, matching (some v) = rows.filter fun x => name x = v)
    (hrep : ∀ x y, rep x = rep y → name x = name y) (hraw : StringText raw u.toList) :
    (((queried createdAt id (matching (UsersService.listWhere
        (parseEqFilter (some (nameFilter attributeName raw))) attributeName)) t).take 100).map rep =
        (rows.filter fun x => name x = u).map rep ↔
      FoundAsNamed (rows.map name) u raw) ∧
    (FoundAsNamed (rows.map name) u raw →
      ((matching (UsersService.listWhere (parseEqFilter (some (nameFilter attributeName raw)))
        attributeName)).length = 0 ↔ u ∉ rows.map name)) := by
  have htext : String.ofList raw = u ↔ '\\' ∉ raw := by
    rw [← stringText_eq_iff hraw, ← String.toList_inj, String.toList_ofList]
  unfold FoundAsNamed
  by_cases hline : IsLine raw
  · rw [listWhere_nameFilter hname hline, hsome, found_some_iff hnames t hrep,
      length_named_eq_zero_iff, htext]
    simp only [hline, true_and, not_true_eq_false, false_and, or_false]
    intro h
    rcases h with hplain | ⟨hu, hv⟩
    · rw [htext.mpr hplain]
    · exact ⟨fun _ => hu, fun _ => hv⟩
  · rw [listWhere_nameFilter_none hline, hall, found_all_iff hnames t]
    simp only [hline, false_and, not_false_eq_true, true_and, false_or]
    intro h
    constructor
    · intro hempty
      rw [List.length_eq_zero_iff.mp hempty]
      simp
    · intro hu
      cases rows with
      | nil => rfl
      | cons x rest =>
        have hx := h (name x) (by simp)
        exact absurd (by simp [hx]) hu

end Pages

section Lookups

variable (env : Env) (ticks : ℕ → Tick) (s : Store) (u f : String)

/-- The list answers with exactly the users named `u`, and with the total 0 if
and only if no creation under this name is a conflict. -/
def LooksUpUser : Prop :=
  ∃ total, serve env ticks (.listUsers (some f) (parsePagination none none)) s =
      (.ok ⟨200, .userList (listResponse total 1
        ((s.users.filter fun x => x.userName = u).map fun x => toScimUser x env.baseUrl))⟩, s) ∧
    ∀ (ticks' : ℕ → Tick) (salt : String) (dto : CreateScimUserDto),
      (∀ n, s.user (ticks' n).uuid = none) → dto.userName = u →
      (total = 0 ↔ (answerOf (serve env ticks' (.createUser salt dto) s).1).status ≠ 409)

/-- The same of groups; the body of the creation lists no member twice. -/
def LooksUpGroup : Prop :=
  ∃ total, serve env ticks (.listGroups (some f) (parsePagination none none)) s =
      (.ok ⟨200, .groupList (listResponse total 1
        ((s.groups.filter fun g => g.displayName = u).map fun g =>
          toScimGroup (withMembers s g) env.baseUrl))⟩, s) ∧
    ∀ (ticks' : ℕ → Tick) (dto : CreateScimGroupDto),
      (∀ n, s.group (ticks' n).uuid = none) → dto.displayName = u →
      (∀ members, GroupsService.memberCreates dto.members = some members → members.Nodup) →
      (total = 0 ↔ (answerOf (serve env ticks' (.createGroup dto) s).1).status ≠ 409)

theorem defaultPaging : parsePagination none none = ⟨1, (100 : ℕ)⟩ := by
  simp [parsePagination, number, atLeast]

variable {env ticks s u f}

theorem looksUpUser_iff (hs : s.Valid) {raw : List Char} (hraw : StringText raw u.toList) :
    LooksUpUser env ticks s u (nameFilter "userName" raw) ↔
      FoundAsNamed (s.users.map ScimUser.userName) u raw := by
  have hname : IsAttribute "userName".toList := Or.inl ⟨by decide, List.all_eq_true.mp (by decide)⟩
  have hfound := found_iff ScimUser.createdAt ScimUser.id (fun x => toScimUser x env.baseUrl) hname
    hs.userNames (ticks 0) (matchingUsers · s) rfl (fun _ => rfl)
    (fun x y h => congrArg UserRep.userName h) hraw
  have hserve := serve_listUsers_page env ticks s (some (nameFilter "userName" raw))
    (@pageable_first 100 (by omega))
  rw [userPage, pageOf_first] at hserve
  unfold LooksUpUser
  rw [defaultPaging, hserve, ← hfound.1]
  constructor
  · intro h
    obtain ⟨total, hanswer, _⟩ := h
    simp only [listResponse, Prod.mk.injEq, Except.ok.injEq, Answer.mk.injEq, Body.userList.injEq,
      ListResponse.mk.injEq, and_true, true_and] at hanswer
    exact hanswer.2.2
  · intro h
    have htotal := hfound.2 (hfound.1.mp h)
    refine ⟨(listedUsers s (some (nameFilter "userName" raw))).length, ?_, ?_⟩
    · rw [listedUsers, h]
    · intro ticks' salt dto hfresh hdto
      rw [ne_eq, createUser_conflict_iff hfresh, hdto]
      exact htotal

theorem looksUpGroup_iff (hs : s.Valid) {raw : List Char} (hraw : StringText raw u.toList) :
    LooksUpGroup env ticks s u (nameFilter "displayName" raw) ↔
      FoundAsNamed (s.groups.map ScimGroup.displayName) u raw := by
  have hname : IsAttribute "displayName".toList :=
    Or.inl ⟨by decide, List.all_eq_true.mp (by decide)⟩
  have hfound := found_iff ScimGroup.createdAt ScimGroup.id
    (fun g => toScimGroup (withMembers s g) env.baseUrl) hname hs.displayNames (ticks 0)
    (matchingGroups · s) rfl (fun _ => rfl) (fun x y h => congrArg GroupRep.displayName h) hraw
  have hserve := serve_listGroups_page env ticks s (some (nameFilter "displayName" raw))
    (@pageable_first 100 (by omega))
  rw [groupPage, pageOf_first] at hserve
  unfold LooksUpGroup
  rw [defaultPaging, hserve, ← hfound.1]
  constructor
  · intro h
    obtain ⟨total, hanswer, _⟩ := h
    simp only [listResponse, Prod.mk.injEq, Except.ok.injEq, Answer.mk.injEq, Body.groupList.injEq,
      ListResponse.mk.injEq, and_true, true_and] at hanswer
    exact hanswer.2.2
  · intro h
    have htotal := hfound.2 (hfound.1.mp h)
    refine ⟨(listedGroups s (some (nameFilter "displayName" raw))).length, ?_, ?_⟩
    · rw [listedGroups, h]
    · intro ticks' dto hfresh hdto hmembers
      rw [ne_eq, createGroup_conflict_iff hs hfresh dto hmembers, hdto]
      exact htotal

end Lookups

/-- The lookup by name agrees with the creation exactly when the literal says
its text, or the stored names make up for it. -/
theorem name_lookup_iff (env : Env) (ticks : ℕ → Tick) {s : Store} (hs : s.Valid) {u : String}
    {raw : List Char} (hraw : StringText raw u.toList) :
    (LooksUpUser env ticks s u (nameFilter "userName" raw) ↔
      FoundAsNamed (s.users.map ScimUser.userName) u raw) ∧
    (LooksUpGroup env ticks s u (nameFilter "displayName" raw) ↔
      FoundAsNamed (s.groups.map ScimGroup.displayName) u raw) :=
  ⟨looksUpUser_iff hs hraw, looksUpGroup_iff hs hraw⟩

theorem name_lookup_iff_sample :
    LooksUpUser sampleEnv sampleTicks sampleStore "ann" (nameFilter "userName" "ann".toList) ∧
      LooksUpGroup sampleEnv sampleTicks sampleStore "ann"
        (nameFilter "displayName" "ann".toList) := by
  have hplain : StringText "ann".toList "ann".toList := stringText_self (by simp)
  have hlookup := name_lookup_iff sampleEnv sampleTicks sampleStore_valid hplain
  have hline : IsLine "ann".toList := List.all_eq_true.mp (by decide)
  exact ⟨hlookup.1.mpr (Or.inl ⟨hline, Or.inl (by decide)⟩),
    hlookup.2.mpr (Or.inl ⟨hline, Or.inl (by decide)⟩)⟩

/-- A user whose name has a quote in it, which every literal must escape. -/
def quotedStore : Store := ⟨[sampleUser "u" "a\"b"], [], []⟩

theorem quoted_name_not_found :
    quotedStore.Valid ∧ StringText "a\\\"b".toList "a\"b".toList ∧
      ¬LooksUpUser sampleEnv sampleTicks quotedStore "a\"b"
        (nameFilter "userName" "a\\\"b".toList) := by
  have hvalid : quotedStore.Valid := by
    constructor <;> simp [quotedStore]
  have hraw : StringText "a\\\"b".toList "a\"b".toList :=
    .plain (by decide) (by decide) (by decide)
      (.escape (by decide) (.plain (by decide) (by decide) (by decide) .nil))
  refine ⟨hvalid, hraw, ?_⟩
  rw [looksUpUser_iff hvalid hraw]
  intro h
  have hline : IsLine "a\\\"b".toList := List.all_eq_true.mp (by decide)
  rcases h with ⟨_, hescape | ⟨hu, _⟩⟩ | ⟨hterminator, _⟩
  · exact absurd hescape (by decide)
  · exact hu (by decide)
  · exact hterminator hline

end OktaScim.NameLookup
