import OktaScim.GroupPatchEffect
import OktaScim.GroupUpdates
import OktaScim.RowChanges
import OktaScim.UserUpdates

/-!
No update is lost. A PUT or PATCH looks its row up before it writes, and others
may write in between; but what it writes are single columns and single
memberships. So what it has set, put in or taken out stays so, in any interleaving
with requests that do not set the same thing anew, those included that had looked
up before.
-/
namespace OktaScim.LostUpdates

open Programs Interleavings Schema KeyedRows JsValues PrismaClient PrismaConstraints Bodies
open UserPatch GroupPatch GroupPatchMeaning GroupPatchEffect GroupUpdates UserUpdates Requests
open RequestPrograms ConcurrentStore RelyGuarantee RowChanges PatchRetry

variable {ι : Type} [DecidableEq ι] {env : Env} {request : ι → Request}

/-- What is established in the meantime holds, when the clients that act make
only calls that keep it. -/
theorem established {I : Store → Prop} {acts : Request → Prop} {admits : Tick → Store → Prop}
    (hkeeps : ∀ r c, acts r → Issues env r c → Keeps (exec env.engine) admits I c) {s : Store}
    {cfg cfg' : Clients ι} (hcfg : Served env request s cfg)
    (h : Reaches (exec env.engine) (fun i => (request i).handle env)
      (StepsOf (fun j => acts (request j)) admits) cfg cfg') {i : ι} (hi : cfg.threads i = none)
    (hestablishes : Establishes (exec env.engine) I ((request i).handle env)) {a : Answer}
    (ha : cfg'.answered i = some (.ok a)) : I cfg'.store := by
  obtain ⟨hprog, hinit⟩ := acting_makes hkeeps hcfg
  exact reaches_establishes hprog hinit (guarantees_keeps _ _ I) hi hestablishes h ha

section Deletions

/-- The request deletes the user `u`. -/
def DeletesUser (u : String) : Request → Prop
  | .deleteUser id => id = u
  | .clearData => True
  | _ => False

/-- The request deletes the group `g`. -/
def DeletesGroup (g : String) : Request → Prop
  | .deleteGroup id => id = g
  | .clearData => True
  | _ => False

variable {I : Store → Prop}

/-- After its lookup, a request has established what its tail establishes. -/
theorem userLookup_establishes {id : String} {rest : Service Answer}
    (h : Establishes (exec env.engine) I rest) :
    Establishes (exec env.engine) I
      (.call (.userFindUnique id) (UsersService.whenFound id rest) : Service Answer) := by
  intro t s found s' _
  cases found with
  | none => exact Or.inr trivial
  | some u => exact Or.inr h

theorem groupLookup_establishes {id : String} {rest : Service Answer}
    (h : Establishes (exec env.engine) I rest) :
    Establishes (exec env.engine) I
      (.call (.groupFindUnique id) (GroupsService.whenFound id rest) : Service Answer) := by
  intro t s found s' _
  cases found with
  | none => exact Or.inr trivial
  | some g => exact Or.inr h

end Deletions

section Columns

variable {β : Type} {E : Engine} {f : ScimUser → β} {v : β} {u : String}

/-- The user is stored, and what `f` reads off its row is `v`. -/
def Shows (f : ScimUser → β) (v : β) (u : String) (s : Store) : Prop :=
  ∃ row, s.user u = some row ∧ f row = v

/-- Written over a row of which `f` reads `v`, the data leaves it so. -/
def Leaves (E : Engine) (f : ScimUser → β) (v : β) (data : UserUpdateData) : Prop :=
  ∀ upd, data.read E = some upd → ∀ now row, f row = v → f (upd.apply now row) = v

/-- Written over any row, the data makes `f` read `v`. -/
def Sets (E : Engine) (f : ScimUser → β) (v : β) (data : UserUpdateData) : Prop :=
  ∀ upd, data.read E = some upd → ∀ now row, f (upd.apply now row) = v

/-- The request does not delete the user and leaves what `f` reads. -/
structure Respects (env : Env) (u : String) (f : ScimUser → β) (v : β) (r : Request) : Prop where
  stays : ¬DeletesUser u r
  leaves : ∀ data, Updates env u r data → Leaves env.engine f v data

/-- The request is a PUT or PATCH of the user that makes `f` read `v`. -/
inductive Assigns (env : Env) (u : String) (f : ScimUser → β) (v : β) : Request → Prop
  | replaced {salt : String} {dto : UpdateScimUserDto} :
    Sets env.engine f v (UsersService.replaceData (env.bcrypt.hash salt) dto) →
    Assigns env u f v (.replaceUser salt u dto)
  | patched {operations : List (Option PatchOperation)} :
    (∀ fields, applyUserPatch operations = some fields →
      Sets env.engine f v (UsersService.patchData fields)) →
    Assigns env u f v (.patchUser u operations)

/-- Only an update or a deletion of the user could change what is read. -/
theorem respects_keeps {r : Request} {c : Call} (h : Respects env u f v r) (hc : Issues env r c) :
    Keeps (exec env.engine) (fun _ _ => True) (Shows f v u) c := by
  rintro t s x s' - ⟨row, hrow, hv⟩ hexec
  by_cases hw : CallWritesUser u c
  · cases c with
    | userUpdate id data =>
      cases hw
      cases hc with
      | read hreads => exact hreads.elim
      | userUpdate hdata =>
        obtain ⟨upd, old, hread, hold, _, _, rfl⟩ := userUpdate_ok (rejects_eq_ok hexec)
        rw [hrow] at hold
        cases hold
        exact ⟨_, user_after_update hrow upd t.now, h.leaves data hdata upd hread t.now row hv⟩
    | userDelete id =>
      cases hc with
      | read hreads => exact hreads.elim
      | userDelete hr =>
        subst hr
        exact absurd hw h.stays
    | userDeleteMany =>
      cases hc with
      | read hreads => exact hreads.elim
      | userDeleteMany hr =>
        subst hr
        exact absurd trivial h.stays
    | _ => exact hw.elim
  · exact ⟨row, (exec_userChange hexec u).keeps hw hrow, hv⟩

theorem updateUserTail_establishes {data : UserUpdateData} (h : Sets env.engine f v data) :
    Establishes (exec env.engine) (Shows f v u) (updateUserTail env u data) := by
  intro t s x s' hexec
  obtain ⟨upd, old, hread, hold, _, _, rfl⟩ := userUpdate_ok (rejects_eq_ok hexec)
  exact Or.inl ⟨_, user_after_update hold upd t.now, h upd hread t.now old⟩

theorem assigns_establishes {r : Request} (h : Assigns env u f v r) :
    Establishes (exec env.engine) (Shows f v u) (r.handle env) := by
  cases h with
  | replaced hsets =>
    rw [handle_replaceUser]
    exact userLookup_establishes (updateUserTail_establishes hsets)
  | @patched operations hsets =>
    cases hfields : applyUserPatch operations with
    | none =>
      rw [handle_patchUser_none env hfields]
      trivial
    | some fields =>
      rw [handle_patchUser_some env hfields]
      exact userLookup_establishes (updateUserTail_establishes (hsets fields hfields))

/-- What an update of a user has set is still set when any number of requests
that respect it have been served in between. -/
theorem user_update_kept {s : Store} {cfg cfg' : Clients ι} (hcfg : Served env request s cfg)
    (h : Meanwhile env request (fun j => Respects env u f v (request j)) cfg cfg') {i : ι}
    (hi : cfg.threads i = none) (hassigns : Assigns env u f v (request i)) {a : Answer}
    (ha : cfg'.answered i = some (.ok a)) :
    ∃ row, cfg'.store.user u = some row ∧ f row = v :=
  established (fun _ _ => respects_keeps) hcfg h hi (assigns_establishes hassigns) ha

/-- A user is deactivated and renamed at the same time. -/
def deactivateAndRename : Bool → Request
  | true => .patchUser "u" [some ⟨some "replace", some "active", some (.bool false)⟩]
  | false => .patchUser "u" [some ⟨some "replace", some "name.givenName", some (.str "Ann")⟩]

/-- Both have looked the user up before one of them writes. -/
theorem user_update_kept_sample : ∃ cfg' : Clients Bool,
    cfg'.answered true = some (.ok (userAnswer sampleEnv 200
      { sampleUser "u" "ann" with active := false, updatedAt := 3 })) ∧
    (∃ a, cfg'.answered false = some (.ok a)) ∧
    ∃ row, cfg'.store.user "u" = some row ∧ row.active = false := by
  have hleaves : ∀ i, Respects sampleEnv "u" ScimUser.active false (deactivateAndRename i) := by
    intro i
    refine ⟨fun h => by cases i <;> exact h, fun data hdata => ?_⟩
    cases i with
    | true =>
      cases hdata with
      | patched hfields =>
        cases hfields
        rintro upd hread now row -
        cases hread
        rfl
    | false =>
      cases hdata with
      | patched hfields =>
        cases hfields
        rintro upd hread now row hrow
        cases hread
        exact hrow
  have hassigns : Assigns sampleEnv "u" ScimUser.active false (deactivateAndRename true) := by
    refine .patched fun fields hfields => ?_
    cases hfields
    rintro upd hread now row
    cases hread
    rfl
  have h₀ : Meanwhile sampleEnv deactivateAndRename
      (fun j => Respects sampleEnv "u" ScimUser.active false (deactivateAndRename j))
      (Config.initial sampleStore) (Config.initial sampleStore) := .refl
  have h₁ := h₀.tail (e := .start true) (hleaves true) rfl
  have h₂ := h₁.tail (e := .start false) (hleaves false) rfl
  have h₃ := h₂.tail (e := .call true (sampleTick "x" 1)) ⟨hleaves true, trivial⟩ rfl
  have h₄ := h₃.tail (e := .call false (sampleTick "x" 2)) ⟨hleaves false, trivial⟩ rfl
  have h₅ := h₄.tail (e := .call true (sampleTick "x" 3)) ⟨hleaves true, trivial⟩ rfl
  have h₆ := h₅.tail (e := .call false (sampleTick "x" 4)) ⟨hleaves false, trivial⟩ rfl
  exact ⟨_, rfl, ⟨_, rfl⟩, @user_update_kept Bool _ sampleEnv deactivateAndRename _ _ _ _
    sampleStore _ _ .refl h₆ true rfl hassigns _ rfl⟩

end Columns

section Memberships

variable {g u : String}

/-- The body of a PUT lists the user. -/
def Lists (dto : UpdateScimGroupDto) (u : String) : Prop :=
  ∃ m, some m ∈ dto.members.orElse [] ∧ ScimGroupMemberDto.value m = some u

/-- The request puts the user into the group: a PUT that lists it or a PATCH
that adds it. -/
inductive PutsIn (g u : String) : Request → Prop
  | replaced {dto : UpdateScimGroupDto} : Lists dto u → PutsIn g u (.replaceGroup g dto)
  | patched {operations : List (Option PatchOperation)} : NamedInAdd operations (.str u) →
    PutsIn g u (.patchGroup g operations)

/-- The request takes the user out of the group first: any PUT, or a PATCH with
a removal that selects it. -/
inductive TakesOut (E : Engine) (g u : String) : Request → Prop
  | replaced (dto : UpdateScimGroupDto) : TakesOut E g u (.replaceGroup g dto)
  | patched {operations : List (Option PatchOperation)} {v : Json} :
    NamedInRemove operations v → Selects E v u → TakesOut E g u (.patchGroup g operations)

/-- The request deletes neither the user nor the group, and puts the user into
the group if it takes it out. -/
structure Spares (env : Env) (g u : String) (r : Request) : Prop where
  user : ¬DeletesUser u r
  group : ¬DeletesGroup g r
  back : TakesOut env.engine g u r → PutsIn g u r

/-- What is read off an entry is among what is read off the list. -/
theorem mapM_some_of_mem {α β : Type} {f : α → Option β} {l : List α} {ys : List β}
    (h : l.mapM f = some ys) {x : α} (hx : x ∈ l) : ∃ y ∈ ys, f x = some y := by
  induction l generalizing ys with
  | nil => contradiction
  | cons z l ih =>
    obtain ⟨y, rest, hy, hrest, rfl⟩ := mapM_cons_some h
    rcases List.mem_cons.mp hx with rfl | hx
    · exact ⟨y, List.mem_cons_self .., hy⟩
    · obtain ⟨y', hy', hfx⟩ := ih hrest hx
      exact ⟨y', List.mem_cons_of_mem _ hy', hfx⟩

theorem mem_iff_lists {dto : UpdateScimGroupDto} {members : List (Option String)}
    (hmembers : GroupsService.memberCreates dto.members = some members) {userIds : List String}
    (hids : readMembers members = some userIds) : u ∈ userIds ↔ Lists dto u := by
  constructor
  · intro hu
    obtain ⟨value, hmem, hread⟩ := mem_of_mapM_some hids hu
    cases hread
    obtain ⟨entry, hentry, hvalue⟩ := mem_of_mapM_some hmembers hmem
    obtain ⟨m, rfl, hm⟩ := Option.map_eq_some_iff.mp hvalue
    exact ⟨m, hentry, hm⟩
  · rintro ⟨m, hm, hvalue⟩
    obtain ⟨value, hmem, hread⟩ := mapM_some_of_mem hmembers hm
    cases hread
    obtain ⟨id, hid, hread⟩ := mapM_some_of_mem hids hmem
    rw [← Option.some.inj (hvalue.symm.trans hread)] at hid
    exact hid

/-- The batch of a request takes members out of its group and then puts some in. -/
theorem batch_members {r : Request} {id : String} {ops : List BatchOp} (hbatch : Batches id r ops)
    {t : Tick} {s s' : Store} {x : Unit} (htr : transaction env.engine t ops s = .ok (x, s')) :
    ⟨g, u⟩ ∈ s'.members ↔
      PutsIn g u r ∨ (⟨g, u⟩ ∈ s.members ∧ ¬TakesOut env.engine g u r) := by
  by_cases hid : id = g
  · subst hid
    cases hbatch with
    | @replaced dto members hmembers =>
      obtain ⟨userIds, hids, hreplaced⟩ := transaction_replaceOperations_ok htr
      have hputs : PutsIn id u (.replaceGroup id dto) ↔ u ∈ userIds := by
        rw [mem_iff_lists hmembers hids]
        exact ⟨fun h => by cases h with | replaced hlists => exact hlists, .replaced⟩
      have htakes : TakesOut env.engine id u (.replaceGroup id dto) := .replaced dto
      simp [hreplaced.members, hputs, htakes, eraseRow]
    | @patched operations patch hpatch =>
      have hputs : PutsIn id u (.patchGroup id operations) ↔ Json.str u ∈ patch.addMemberIds := by
        rw [(applyGroupPatch_members hpatch _).1]
        exact ⟨fun h => by cases h with | patched hadd => exact hadd, .patched⟩
      have htakes : TakesOut env.engine id u (.patchGroup id operations) ↔
          ∃ v ∈ patch.removeMemberIds, Selects env.engine v u := by
        constructor
        · rintro (_ | ⟨hremove, hselects⟩)
          exact ⟨_, ((applyGroupPatch_members hpatch _).2).mpr hremove, hselects⟩
        · rintro ⟨v, hv, hselects⟩
          exact .patched (((applyGroupPatch_members hpatch v).2).mp hv) hselects
      simp [(transaction_patchOperations_ok htr).members, hputs, htakes, or_comm]
  · have hother : ¬PutsIn g u r ∧ ¬TakesOut env.engine g u r := by
      cases hbatch with
      | replaced _ =>
        constructor
        · rintro (_ | _)
          exact hid rfl
        · rintro (_ | _)
          exact hid rfl
      | patched _ =>
        constructor
        · rintro (_ | _)
          exact hid rfl
        · rintro (_ | _)
          exact hid rfl
    have hkept : ⟨g, u⟩ ∈ s'.members ↔ (⟨g, u⟩ : ScimGroupMember) ∈ s.members := by
      have hne : g ≠ id := fun h => hid h.symm
      cases hbatch with
      | replaced hmembers =>
        obtain ⟨_, _, hreplaced⟩ := transaction_replaceOperations_ok htr
        simp [hreplaced.members, eraseRow, hid, hne]
      | patched hpatch => simp [(transaction_patchOperations_ok htr).members, hne]
    rw [hkept]
    simp [hother.1, hother.2]

theorem spares_keeps {r : Request} {c : Call} (h : Spares env g u r) (hc : Issues env r c) :
    Keeps (exec env.engine) (fun _ _ => True) (fun s => ⟨g, u⟩ ∈ s.members) c := by
  intro t s x s' _ hm hexec
  cases hc with
  | read hreads => rwa [read_store hreads hexec]
  | userCreate data =>
    obtain ⟨_, _, _, rfl⟩ := userCreate_ok (rejects_eq_ok hexec)
    exact hm
  | userUpdate _ =>
    obtain ⟨_, _, _, _, _, _, rfl⟩ := userUpdate_ok (rejects_eq_ok hexec)
    exact hm
  | @userDelete id hr =>
    subst hr
    obtain ⟨_, rfl⟩ := userDelete_ok (rejects_eq_ok hexec)
    have hother : u ≠ id := fun heq => h.user heq.symm
    exact List.mem_filter.mpr ⟨hm, by simpa using hother⟩
  | groupCreate data =>
    obtain ⟨_, _, _, _, hins, _⟩ := groupCreate_ok (rejects_eq_ok hexec)
    obtain ⟨_, _, rfl⟩ := insertMembers_ok hins
    exact List.mem_append_left _ hm
  | transaction hbatch =>
    refine (batch_members hbatch (rejects_eq_ok hexec)).mpr ?_
    by_cases htakes : TakesOut env.engine g u r
    · exact Or.inl (h.back htakes)
    · exact Or.inr ⟨hm, htakes⟩
  | @groupDelete id hr =>
    subst hr
    obtain ⟨_, rfl⟩ := groupDelete_ok (rejects_eq_ok hexec)
    have hother : g ≠ id := fun heq => h.group heq.symm
    exact List.mem_filter.mpr ⟨hm, by simpa using hother⟩
  | memberDeleteMany hr =>
    subst hr
    exact absurd trivial h.user
  | userDeleteMany hr =>
    subst hr
    exact absurd trivial h.user
  | groupDeleteMany hr =>
    subst hr
    exact absurd trivial h.user

/-- A call brings the user into the group only by the batch of a request that
puts it in, or with the group's id drawn for a new group. -/
theorem absent_keeps {r : Request} {c : Call} (h : ¬PutsIn g u r) (hc : Issues env r c) :
    Keeps (exec env.engine) (fun t _ => t.uuid ≠ g) (fun s => ⟨g, u⟩ ∉ s.members) c := by
  intro t s x s' ht hm hexec
  cases hc with
  | read hreads => rwa [read_store hreads hexec]
  | userCreate data =>
    obtain ⟨_, _, _, rfl⟩ := userCreate_ok (rejects_eq_ok hexec)
    exact hm
  | userUpdate _ =>
    obtain ⟨_, _, _, _, _, _, rfl⟩ := userUpdate_ok (rejects_eq_ok hexec)
    exact hm
  | userDelete _ =>
    obtain ⟨_, rfl⟩ := userDelete_ok (rejects_eq_ok hexec)
    exact fun hmem => hm (List.mem_filter.mp hmem).1
  | groupCreate data =>
    obtain ⟨userIds, _, _, _, hins, _⟩ := groupCreate_ok (rejects_eq_ok hexec)
    obtain ⟨_, _, rfl⟩ := insertMembers_ok hins
    intro hmem
    rcases List.mem_append.mp hmem with hold | hnew
    · exact hm hold
    · obtain ⟨_, _, heq⟩ := List.mem_map.mp hnew
      exact ht (congrArg ScimGroupMember.groupId heq)
  | transaction hbatch =>
    intro hmem
    rcases (batch_members hbatch (rejects_eq_ok hexec)).mp hmem with hputs | ⟨hold, _⟩
    · exact h hputs
    · exact hm hold
  | groupDelete _ =>
    obtain ⟨_, rfl⟩ := groupDelete_ok (rejects_eq_ok hexec)
    exact fun hmem => hm (List.mem_filter.mp hmem).1
  | memberDeleteMany _ =>
    cases hexec
    exact fun hmem => by contradiction
  | userDeleteMany _ =>
    cases hexec
    exact fun hmem => by contradiction
  | groupDeleteMany _ =>
    cases hexec
    exact fun hmem => by contradiction

theorem writeGroup_establishes {I : Store → Prop} {r : Request} {ops : List BatchOp}
    (h : ∀ t ops s s', Batches g r ops → transaction env.engine t ops s = .ok ((), s') → I s')
    (hbatch : Batches g r ops) : Establishes (exec env.engine) I (writeGroup env g ops) :=
  fun t s _ s' hexec => Or.inl (h t ops s s' hbatch (rejects_eq_ok hexec))

theorem replaceGroup_establishes {I : Store → Prop} {dto : UpdateScimGroupDto}
    (h : ∀ t ops s s', Batches g (.replaceGroup g dto) ops →
      transaction env.engine t ops s = .ok ((), s') → I s') :
    Establishes (exec env.engine) I ((Request.replaceGroup g dto).handle env) := by
  rw [handle_replaceGroup]
  refine groupLookup_establishes ?_
  unfold replaceGroupTail
  cases hmembers : GroupsService.memberCreates dto.members with
  | none => trivial
  | some members => exact writeGroup_establishes h (.replaced hmembers)

/-- A PATCH that names a member runs a batch. -/
theorem patchGroup_establishes {I : Store → Prop} {operations : List (Option PatchOperation)}
    {v : Json} (hnamed : NamedInAdd operations v ∨ NamedInRemove operations v)
    (h : ∀ t ops s s', Batches g (.patchGroup g operations) ops →
      transaction env.engine t ops s = .ok ((), s') → I s') :
    Establishes (exec env.engine) I ((Request.patchGroup g operations).handle env) := by
  cases hpatch : applyGroupPatch operations with
  | none =>
    rw [handle_patchGroup_none env hpatch]
    trivial
  | some patch =>
    rw [handle_patchGroup_some env hpatch]
    refine groupLookup_establishes ?_
    have hbatch : Batches g (.patchGroup g operations) _ := .patched hpatch
    have hsome : ∃ op, op ∈ GroupsService.patchOperations g patch := by
      obtain ⟨hadds, hremoves⟩ := applyGroupPatch_members hpatch v
      rcases hnamed with hadd | hremove
      · exact ⟨_, List.mem_append_right _ (List.mem_map.mpr ⟨v, hadds.mpr hadd, rfl⟩)⟩
      · exact ⟨_, List.mem_append_left _
          (List.mem_append_right _ (List.mem_map.mpr ⟨v, hremoves.mpr hremove, rfl⟩))⟩
    unfold patchGroupTail
    cases hops : GroupsService.patchOperations g patch with
    | nil =>
      obtain ⟨op, hop⟩ := hsome
      rw [hops] at hop
      contradiction
    | cons op ops =>
      rw [hops] at hbatch
      exact writeGroup_establishes h hbatch

theorem putsIn_establishes {r : Request} (h : PutsIn g u r) :
    Establishes (exec env.engine) (fun s => ⟨g, u⟩ ∈ s.members) (r.handle env) := by
  have hdone : ∀ t ops s s', Batches g r ops → transaction env.engine t ops s = .ok ((), s') →
      (⟨g, u⟩ : ScimGroupMember) ∈ s'.members := fun t ops s s' hbatch htr =>
    (batch_members hbatch htr).mpr (Or.inl h)
  cases h with
  | replaced hlists => exact replaceGroup_establishes hdone
  | patched hadd => exact patchGroup_establishes (Or.inl hadd) hdone

theorem takesOut_establishes {r : Request} (h : TakesOut env.engine g u r) (hout : ¬PutsIn g u r) :
    Establishes (exec env.engine) (fun s => ⟨g, u⟩ ∉ s.members) (r.handle env) := by
  have hdone : ∀ t ops s s', Batches g r ops → transaction env.engine t ops s = .ok ((), s') →
      (⟨g, u⟩ : ScimGroupMember) ∉ s'.members := by
    intro t ops s s' hbatch htr hmem
    rcases (batch_members hbatch htr).mp hmem with hputs | ⟨_, hkept⟩
    · exact hout hputs
    · exact hkept h
  cases h with
  | replaced dto => exact replaceGroup_establishes hdone
  | patched hremove hselects => exact patchGroup_establishes (Or.inr hremove) hdone

/-- A membership that a PUT or PATCH of the group has made is still there when
any number of requests that spare it have been served in between. -/
theorem membership_kept {s : Store} {cfg cfg' : Clients ι} (hcfg : Served env request s cfg)
    (h : Meanwhile env request (fun j => Spares env g u (request j)) cfg cfg') {i : ι}
    (hi : cfg.threads i = none) (hputs : PutsIn g u (request i)) {a : Answer}
    (ha : cfg'.answered i = some (.ok a)) : ⟨g, u⟩ ∈ cfg'.store.members :=
  established (fun _ _ => spares_keeps) hcfg h hi (putsIn_establishes hputs) ha

/-- One user joins a group while another is taken out of it. -/
def joinAndLeave : Bool → Request
  | true => .patchGroup "g" [some (membersOperation "add" ["u"])]
  | false => .patchGroup "g" [some (membersOperation "remove" ["x"])]

/-- Both have looked the group up before one of them writes. -/
theorem membership_kept_sample : ∃ cfg' : Clients Bool,
    (∃ a, cfg'.answered true = some (.ok a)) ∧ (∃ a, cfg'.answered false = some (.ok a)) ∧
      ⟨"g", "u"⟩ ∈ cfg'.store.members := by
  have hjoin : NamedInAdd [some (membersOperation "add" ["u"])] (.str "u") :=
    ((applyGroupPatch_members (r := ⟨none, none, [.str "u"], []⟩) rfl _).1).mp
      (List.mem_singleton_self _)
  have hspares : ∀ i, Spares sampleEnv "g" "u" (joinAndLeave i) := by
    intro i
    cases i with
    | true => exact ⟨fun h => h, fun h => h, fun _ => .patched hjoin⟩
    | false =>
      refine ⟨fun h => h, fun h => h, ?_⟩
      rintro (_ | ⟨hv, hselects⟩)
      have hremoved :=
        ((applyGroupPatch_members (r := ⟨none, none, [], [.str "x"]⟩) rfl _).2).mpr hv
      rw [List.mem_singleton.mp hremoved, selects_str] at hselects
      exact absurd hselects (by decide)
  have h₀ : Meanwhile sampleEnv joinAndLeave (fun j => Spares sampleEnv "g" "u" (joinAndLeave j))
      (Config.initial sampleStore) (Config.initial sampleStore) := .refl
  have h₁ := h₀.tail (e := .start true) (hspares true) rfl
  have h₂ := h₁.tail (e := .start false) (hspares false) rfl
  have h₃ := h₂.tail (e := .call true (sampleTick "x" 1)) ⟨hspares true, trivial⟩ rfl
  have h₄ := h₃.tail (e := .call false (sampleTick "x" 2)) ⟨hspares false, trivial⟩ rfl
  have h₅ := h₄.tail (e := .call true (sampleTick "x" 3)) ⟨hspares true, trivial⟩ rfl
  have h₆ := h₅.tail (e := .call false (sampleTick "x" 4)) ⟨hspares false, trivial⟩ rfl
  have h₇ := h₆.tail (e := .call false (sampleTick "x" 5)) ⟨hspares false, trivial⟩ rfl
  have h₈ := h₇.tail (e := .call true (sampleTick "x" 6)) ⟨hspares true, trivial⟩ rfl
  exact ⟨_, ⟨_, rfl⟩, ⟨_, rfl⟩, @membership_kept Bool _ sampleEnv joinAndLeave "g" "u" sampleStore
    _ _ .refl h₈ true rfl (.patched hjoin) _ rfl⟩

/-- A user that a PUT or PATCH has taken out of the group is not in it again,
whatever requests have been served in between that do not put it in. -/
theorem removal_kept {s : Store} {cfg cfg' : Clients ι} (hcfg : Served env request s cfg)
    (h : Reaches (exec env.engine) (fun i => (request i).handle env)
      (StepsOf (fun j => ¬PutsIn g u (request j)) fun t _ => t.uuid ≠ g) cfg cfg') {i : ι}
    (hi : cfg.threads i = none) (htakes : TakesOut env.engine g u (request i))
    (hout : ¬PutsIn g u (request i)) {a : Answer} (ha : cfg'.answered i = some (.ok a)) :
    ⟨g, u⟩ ∉ cfg'.store.members :=
  established (fun _ _ => absent_keeps) hcfg h hi (takesOut_establishes htakes hout) ha

/-- One user leaves a group while another joins it. -/
def leaveAndJoin : Bool → Request
  | true => .patchGroup "g" [some (membersOperation "remove" ["u"])]
  | false => .patchGroup "g" [some (membersOperation "add" ["v"])]

/-- A group with one member, and a user who may join it. -/
def leftStore : Store :=
  ⟨[sampleUser "u" "ann", sampleUser "v" "bob"], [sampleGroup "g" "staff"], [⟨"g", "u"⟩]⟩

/-- Both have looked the group up, with its old member, before one of them writes. -/
theorem removal_kept_sample : ∃ cfg' : Clients Bool,
    (∃ a, cfg'.answered true = some (.ok a)) ∧ (∃ a, cfg'.answered false = some (.ok a)) ∧
      cfg'.store.members = [⟨"g", "v"⟩] ∧ ⟨"g", "u"⟩ ∉ cfg'.store.members := by
  have hleave : NamedInRemove [some (membersOperation "remove" ["u"])] (.str "u") :=
    ((applyGroupPatch_members (r := ⟨none, none, [], [.str "u"]⟩) rfl _).2).mp
      (List.mem_singleton_self _)
  have htakes : TakesOut sampleEnv.engine "g" "u" (leaveAndJoin true) :=
    .patched hleave ((selects_str ..).mpr rfl)
  have hacts : ∀ i, ¬PutsIn "g" "u" (leaveAndJoin i) := by
    intro i
    cases i with
    | true =>
      rintro (_ | hadd)
      have hadded :=
        ((applyGroupPatch_members (r := ⟨none, none, [], [.str "u"]⟩) rfl _).1).mpr hadd
      contradiction
    | false =>
      rintro (_ | hadd)
      have hadded :=
        ((applyGroupPatch_members (r := ⟨none, none, [.str "v"], []⟩) rfl _).1).mpr hadd
      simp at hadded
  have htick : ∀ n : ℕ, (sampleTick "x" n).uuid ≠ "g" := fun n => by simp [sampleTick]
  have h₀ : Reaches (exec sampleEnv.engine) (fun i => (leaveAndJoin i).handle sampleEnv)
      (StepsOf (fun j => ¬PutsIn "g" "u" (leaveAndJoin j)) fun t _ => t.uuid ≠ "g")
      (Config.initial leftStore) (Config.initial leftStore) := .refl
  have h₁ := h₀.tail (e := .start true) (hacts true) rfl
  have h₂ := h₁.tail (e := .start false) (hacts false) rfl
  have h₃ := h₂.tail (e := .call true (sampleTick "x" 1)) ⟨hacts true, htick 1⟩ rfl
  have h₄ := h₃.tail (e := .call false (sampleTick "x" 2)) ⟨hacts false, htick 2⟩ rfl
  have h₅ := h₄.tail (e := .call true (sampleTick "x" 3)) ⟨hacts true, htick 3⟩ rfl
  have h₆ := h₅.tail (e := .call false (sampleTick "x" 4)) ⟨hacts false, htick 4⟩ rfl
  have h₇ := h₆.tail (e := .call false (sampleTick "x" 5)) ⟨hacts false, htick 5⟩ rfl
  have h₈ := h₇.tail (e := .call true (sampleTick "x" 6)) ⟨hacts true, htick 6⟩ rfl
  exact ⟨_, ⟨_, rfl⟩, ⟨_, rfl⟩, rfl, @removal_kept Bool _ sampleEnv leaveAndJoin "g" "u" leftStore
    _ _ .refl h₈ true rfl htakes (hacts true) _ rfl⟩

end Memberships

end OktaScim.LostUpdates
