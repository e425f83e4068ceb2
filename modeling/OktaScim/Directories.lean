import OktaScim.BatchOutcomes
import OktaScim.NamedMaps
import OktaScim.TiedSorts

/-!
What the server is for: a directory of accounts and of teams of accounts, both
known by an id and a unique name. A directory has no tables, no rows in any
order and no calls; each request is one operation on it, with its refusals in
the order in which the server finds them. What a request draws from outside is
its clock and its fresh id.
-/
namespace OktaScim.Directories

open NamedMaps Schema JsValues PrismaClient ScimFilter Bodies UserPatch GroupPatch
open Representations Requests RequestPrograms GroupPatchEffect BatchOutcomes

section State

structure Team : Type where
  row : ScimGroup
  members : Set String

abbrev Accounts : Type := NamedMap ScimUser.id ScimUser.userName

abbrev Teams : Type := NamedMap (fun t : Team => t.row.id) (fun t : Team => t.row.displayName)

/-- Members of a team are accounts. -/
def Accounts.Known (accounts : Accounts) (members : Set String) : Prop :=
  ∀ u ∈ members, (accounts.get u).isSome = true

@[ext] structure Directory : Type where
  accounts : Accounts
  teams : Teams
  known : ∀ g team, teams.get g = some team → accounts.Known team.members

/-- Sets of accounts, as the members of a team to be. -/
abbrev Accounts.Members (accounts : Accounts) : Type := {m : Set String // accounts.Known m}

end State

section Operations

open scoped Classical in
/-- The account is added, or changed in place, unless another one has its name. -/
noncomputable def Directory.putAccount (d : Directory) (u : ScimUser) :
    Except PrismaError Directory :=
  if h : d.accounts.HoldsBeside u.id u.userName then .error .P2002
  else .ok
    { d with
      accounts := d.accounts.put u h
      known := by
        intro g team hteam v hv
        rw [NamedMap.get_put]
        split
        · rfl
        · exact d.known g team hteam v hv }

/-- The account leaves the directory and every team. -/
def Directory.dropAccount (d : Directory) (id : String) : Directory where
  accounts := d.accounts.drop id
  teams := d.teams.map (fun team => { team with members := team.members \ {id} })
    (fun _ => rfl) (fun _ => rfl)
  known := by
    intro g team hteam v hv
    obtain ⟨old, hold, rfl⟩ := Option.map_eq_some_iff.mp hteam
    have hne : v ≠ id := hv.2
    rw [NamedMap.get_drop, if_neg hne]
    exact d.known g old hold v hv.1

open scoped Classical in
/-- The team is added, or changed in place. That its name is free is found out
before its members are looked at. -/
noncomputable def Directory.putTeam (d : Directory) (row : ScimGroup)
    (members : Except PrismaError d.accounts.Members) : Except PrismaError (Team × Directory) :=
  if h : d.teams.HoldsBeside row.id row.displayName then .error .P2002
  else members.map fun m => (⟨row, m.1⟩,
    { d with
      teams := d.teams.put ⟨row, m.1⟩ h
      known := by
        intro g team hteam
        rw [NamedMap.get_put] at hteam
        split at hteam
        · cases hteam
          exact m.2
        · exact d.known g team hteam })

def Directory.dropTeam (d : Directory) (id : String) : Directory where
  accounts := d.accounts
  teams := d.teams.drop id
  known := by
    intro g team hteam
    rw [NamedMap.get_drop] at hteam
    split at hteam
    · contradiction
    · exact d.known g team hteam

def Directory.empty : Directory where
  accounts := .empty
  teams := .empty
  known := by
    intro g team hteam
    contradiction

open scoped Classical in
/-- The members that a list names, one after the other: none twice, and only
accounts. -/
noncomputable def enroll (accounts : Accounts) :
    List String → accounts.Members → Except PrismaError accounts.Members
  | [], m => .ok m
  | u :: us, m =>
    if u ∈ m.1 then .error .P2002
    else if h : (accounts.get u).isSome = true then
      enroll accounts us ⟨insert u m.1, by
        intro v hv
        rcases hv with rfl | hv
        · exact h
        · exact m.2 v hv⟩
    else .error .P2003

def noMembers (accounts : Accounts) : accounts.Members := ⟨∅, by intro u hu; exact hu.elim⟩

/-- What a PATCH makes of the members of a team. -/
def editedMembers (E : Engine) (r : GroupPatchResult) (members : Set String) : Set String :=
  {u | (u ∈ members ∧ ¬∃ v ∈ r.removeMemberIds, Selects E v u) ∨ Json.str u ∈ r.addMemberIds}

open scoped Classical in
/-- A set of members, if they are accounts. -/
noncomputable def enlist (accounts : Accounts) (members : Set String) :
    Except PrismaError accounts.Members :=
  if h : accounts.Known members then .ok ⟨members, h⟩ else .error .P2003

/-- The row of a team after a PATCH, which is untouched where no column is set. -/
def editedRow (now : ℕ) (r : GroupPatchResult) (row : ScimGroup) : ScimGroup :=
  if r.displayName.isSome ∨ r.externalId.isSome then
    updateGroup now r.displayName (GroupsService.patchColumn r.externalId) row
  else row

end Operations

section Specifications

variable {d : Directory} {u : ScimUser} {row : ScimGroup}
  {members : Except PrismaError d.accounts.Members}

theorem enlist_known {accounts : Accounts} {m : Set String} (h : accounts.Known m) :
    enlist accounts m = .ok ⟨m, h⟩ := dif_pos h

theorem enlist_unknown {accounts : Accounts} {m : Set String} (h : ¬accounts.Known m) :
    enlist accounts m = .error .P2003 := dif_neg h

theorem putAccount_taken (h : d.accounts.HoldsBeside u.id u.userName) :
    d.putAccount u = .error .P2002 := dif_pos h

theorem putAccount_free (h : ¬d.accounts.HoldsBeside u.id u.userName) :
    ∃ d', d.putAccount u = .ok d' ∧ d'.teams = d.teams ∧
      ∀ k, d'.accounts.get k = if k = u.id then some u else d.accounts.get k :=
  ⟨_, dif_neg h, rfl, NamedMap.get_put d.accounts u h⟩

theorem putTeam_taken (h : d.teams.HoldsBeside row.id row.displayName) :
    d.putTeam row members = .error .P2002 := dif_pos h

theorem putTeam_refused (h : ¬d.teams.HoldsBeside row.id row.displayName) {e : PrismaError}
    (hmembers : members = .error e) : d.putTeam row members = .error e := by
  unfold Directory.putTeam
  rw [dif_neg h, hmembers]
  rfl

theorem putTeam_free (h : ¬d.teams.HoldsBeside row.id row.displayName) {m : d.accounts.Members}
    (hmembers : members = .ok m) :
    ∃ d', d.putTeam row members = .ok (⟨row, m.1⟩, d') ∧ d'.accounts = d.accounts ∧
      ∀ k, d'.teams.get k = if k = row.id then some ⟨row, m.1⟩ else d.teams.get k := by
  unfold Directory.putTeam
  rw [dif_neg h, hmembers]
  exact ⟨_, rfl, rfl, NamedMap.get_put d.teams ⟨row, m.1⟩ h⟩

end Specifications

section Requests

/-- An answer in the directory's own terms. A list is known by the set that it
is a page of. -/
inductive Reply : Type
  | account (status : ℕ) (user : ScimUser)
  | team (status : ℕ) (row : ScimGroup) (members : Set MemberRep)
  | accounts (matching : Set ScimUser) (pagination : Pagination)
  | teams (matching : Set (ScimGroup × Set MemberRep)) (pagination : Pagination)
  | done

/-- The members of a team under the names of their accounts. -/
def Directory.memberReps (d : Directory) (members : Set String) : Set MemberRep :=
  {m | m.value ∈ members ∧ (d.accounts.get m.value).map ScimUser.userName = some m.display}

def Directory.teamReply (d : Directory) (status : ℕ) (team : Team) : Reply :=
  .team status team.row (d.memberReps team.members)

/-- Entries of which the name is as asked for, if it is asked for. -/
def Matches (asked : Option String) (name : String) : Prop := ∀ n, asked = some n → name = n

def notFoundUser (id : String) : Exception := .notFound s!"User {id} not found"

def notFoundGroup (id : String) : Exception := .notFound s!"Group {id} not found"

/-- The account found under `id` is changed as the update data says. -/
noncomputable def Directory.updateAccount (d : Directory) (E : Engine) (now : ℕ) (id : String)
    (data : UserUpdateData) : Except Exception (Reply × Directory) :=
  match d.accounts.get id with
  | none => .error (notFoundUser id)
  | some u =>
    match data.read E with
    | none => .error (.prisma .validation)
    | some upd =>
      rejects ((d.putAccount (upd.apply now u)).map fun d' => (.account 200 (upd.apply now u), d'))

/-- The team is written and answered as it is then. -/
noncomputable def Directory.writeTeam (d : Directory) (status : ℕ) (row : ScimGroup)
    (members : Except PrismaError d.accounts.Members) : Except Exception (Reply × Directory) :=
  rejects ((d.putTeam row members).map fun p => (p.2.teamReply status p.1, p.2))

open scoped Classical in
/-- The team found under `id` is changed as the PATCH says. -/
noncomputable def Directory.patchTeam (d : Directory) (E : Engine) (now : ℕ) (id : String)
    (r : GroupPatchResult) : Except Exception (Reply × Directory) :=
  match d.teams.get id with
  | none => .error (notFoundGroup id)
  | some team =>
    if Legible E r then
      d.writeTeam 200 (editedRow now r team.row)
        (enlist d.accounts (editedMembers E r team.members))
    else .error (.prisma .validation)

open scoped Classical in
/-- The operation that a request is. The first call of a request is a lookup, so
that what it writes has the id and the time of its second one. -/
noncomputable def perform (env : Env) (ticks : ℕ → Tick) (r : Request) (d : Directory) :
    Except Exception (Reply × Directory) :=
  match r with
  | .listUsers filter pagination =>
    if Pageable pagination then
      .ok (.accounts {u | (∃ id, d.accounts.get id = some u) ∧
        Matches (UsersService.listWhere (parseEqFilter filter) "userName") u.userName} pagination,
        d)
    else .error (.prisma .other)
  | .getUser id =>
    match d.accounts.get id with
    | none => .error (notFoundUser id)
    | some u => .ok (.account 200 u, d)
  | .createUser salt dto =>
    let row := newUser (ticks 1) (UsersService.createData (env.bcrypt.hash salt) dto)
    if d.accounts.Holds dto.userName then
      .error (.conflict s!"User with userName {dto.userName} already exists")
    else if (d.accounts.get row.id).isSome then .error (.prisma .P2002)
    else rejects ((d.putAccount row).map fun d' => (.account 201 row, d'))
  | .replaceUser salt id dto =>
    d.updateAccount env.engine (ticks 1).now id
      (UsersService.replaceData (env.bcrypt.hash salt) dto)
  | .patchUser id operations =>
    match applyUserPatch operations with
    | none => .error .typeError
    | some fields => d.updateAccount env.engine (ticks 1).now id (UsersService.patchData fields)
  | .deleteUser id =>
    match d.accounts.get id with
    | none => .error (notFoundUser id)
    | some _ => .ok (.done, d.dropAccount id)
  | .listGroups filter pagination =>
    if Pageable pagination then
      .ok (.teams {p | ∃ g team, d.teams.get g = some team ∧
        Matches (UsersService.listWhere (parseEqFilter filter) "displayName")
          team.row.displayName ∧
        p = (team.row, d.memberReps team.members)} pagination, d)
    else .error (.prisma .other)
  | .getGroup id =>
    match d.teams.get id with
    | none => .error (notFoundGroup id)
    | some team => .ok (d.teamReply 200 team, d)
  | .createGroup dto =>
    if d.teams.Holds dto.displayName then
      .error (.conflict s!"Group with displayName {dto.displayName} already exists")
    else
      match GroupsService.memberCreates dto.members with
      | none => .error .typeError
      | some creates =>
        match readMembers creates with
        | none => .error (.prisma .validation)
        | some userIds =>
          let row := newGroup (ticks 1) ⟨dto.displayName, dto.externalId, creates⟩
          if (d.teams.get row.id).isSome then .error (.prisma .P2002)
          else d.writeTeam 201 row (enroll d.accounts userIds (noMembers d.accounts))
  | .replaceGroup id dto =>
    match d.teams.get id with
    | none => .error (notFoundGroup id)
    | some team =>
      match GroupsService.memberCreates dto.members with
      | none => .error .typeError
      | some creates =>
        match readMembers creates with
        | none => .error (.prisma .validation)
        | some userIds =>
          d.writeTeam 200 (updateGroup (ticks 1).now (some dto.displayName) dto.externalId team.row)
            (enroll d.accounts userIds (noMembers d.accounts))
  | .patchGroup id operations =>
    match applyGroupPatch operations with
    | none => .error .typeError
    | some r => d.patchTeam env.engine (ticks 1).now id r
  | .deleteGroup id =>
    match d.teams.get id with
    | none => .error (notFoundGroup id)
    | some _ => .ok (.done, d.dropTeam id)
  | .clearData => .ok (.done, .empty)

end Requests

section Answers

/-- The representation of a team lists each member once, in some order. -/
structure ShowsTeam (env : Env) (row : ScimGroup) (members : Set MemberRep) (rep : GroupRep) :
    Prop where
  nodup : rep.members.Nodup
  listed : ∀ m, m ∈ rep.members ↔ m ∈ members
  rest : { rep with members := [] } = toScimGroup ⟨row, []⟩ env.baseUrl

/-- `rows` is the set in the order of its creation times. -/
structure Enumerates {α : Type} (createdAt : α → ℕ) (rows : List α) (matching : Set α) : Prop where
  nodup : rows.Nodup
  listed : ∀ a, a ∈ rows ↔ a ∈ matching
  sorted : TiedSorts.SortedBy createdAt rows

/-- The answer of the server shows what the directory replies. -/
inductive Shows (env : Env) : Reply → Answer → Prop
  | account (status : ℕ) (u : ScimUser) : Shows env (.account status u) (userAnswer env status u)
  | team (status : ℕ) {row : ScimGroup} {members : Set MemberRep} {rep : GroupRep} :
    ShowsTeam env row members rep → Shows env (.team status row members) ⟨status, .group rep⟩
  | accounts {matching : Set ScimUser} (pagination : Pagination) {rows : List ScimUser} :
    Enumerates ScimUser.createdAt rows matching →
    Shows env (.accounts matching pagination)
      ⟨200, .userList ⟨[SCIM_LIST_RESPONSE_SCHEMA], rows.length, pagination.startIndex,
        (pageOf pagination rows).length,
        (pageOf pagination rows).map fun u => toScimUser u env.baseUrl⟩⟩
  | teams {matching : Set (ScimGroup × Set MemberRep)} (pagination : Pagination)
      {rows : List (ScimGroup × Set MemberRep)} {reps : List GroupRep} :
    Enumerates (fun p => p.1.createdAt) rows matching →
    List.Forall₂ (fun p rep => ShowsTeam env p.1 p.2 rep) (pageOf pagination rows) reps →
    Shows env (.teams matching pagination)
      ⟨200, .groupList ⟨[SCIM_LIST_RESPONSE_SCHEMA], rows.length, pagination.startIndex,
        reps.length, reps⟩⟩
  | done : Shows env .done ⟨204, .empty⟩

end Answers

end OktaScim.Directories
