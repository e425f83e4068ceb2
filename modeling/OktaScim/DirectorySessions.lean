import OktaScim.DirectoryRefinement
import OktaScim.Simulations

/-!
Whole sessions over the tables and over the directory that they represent. As
the directory has no rows, two stores that hold the same rows in any order, and
whose rows are scanned in any order, cannot be told apart but by the order of
what is listed.
-/
namespace OktaScim.DirectorySessions

open Programs NamedMaps Schema KeyedRows PrismaClient ScimFilter UserPatch GroupPatch
open Representations Requests RequestPrograms MembershipRefinement Directories DirectoryRefinement
open FilteredLists TiedSorts Simulations

/-- A request with its outside choices. -/
abbrev Turn : Type := Request × (ℕ → Tick)

def serveTurn (env : Env) (turn : Turn) (s : Store) : Except Exception Answer × Store :=
  serve env turn.2 turn.1 s

/-- A refused operation leaves the directory as it is. -/
noncomputable def performTurn (env : Env) (turn : Turn) (d : Directory) :
    Except Exception Reply × Directory :=
  match perform env turn.2 turn.1 d with
  | .ok (reply, d') => (.ok reply, d')
  | .error e => (.error e, d)

/-- The server answers what the directory replies, or refuses for the same reason. -/
inductive Agrees (env : Env) : Except Exception Answer → Except Exception Reply → Prop
  | shows {a : Answer} {reply : Reply} : Shows env reply a → Agrees env (.ok a) (.ok reply)
  | refused (e : Exception) : Agrees env (.error e) (.error e)

theorem serveTurn_alike (env : Env) (turn : Turn) :
    Alike (serveTurn env) (performTurn env) (fun s d => s.Valid ∧ Represents s d) (Agrees env)
      turn turn := by
  obtain ⟨r, ticks⟩ := turn
  rintro s d ⟨hs, h⟩
  have hvalid : (serve env ticks r s).2.Valid := serve_valid hs rfl
  have hstep := @serve_performs s d env hs h ticks r
  unfold serveTurn performTurn
  generalize serve env ticks r s = served at hstep hvalid
  generalize perform env ticks r d = performed at hstep
  cases hstep with
  | ok hshows hrep => exact ⟨.shows hshows, hvalid, hrep⟩
  | refused e => exact ⟨.refused e, hs, h⟩

/-- Every session over the tables is a session of the directory. -/
theorem session_refines (env : Env) {s : Store} (hs : s.Valid) (turns : List Turn) :
    List.Forall₂ (Agrees env) (runAll (serveTurn env) turns s).1
        (runAll (performTurn env) turns (directory s hs)).1 ∧
      (runAll (serveTurn env) turns s).2.Valid ∧
      Represents (runAll (serveTurn env) turns s).2
        (runAll (performTurn env) turns (directory s hs)).2 :=
  runAll_alike (List.forall₂_same.mpr fun turn _ => serveTurn_alike env turn)
    ⟨hs, represents_directory s hs⟩

/-- A user joins the group, which is then renamed to a name in use and deleted. -/
def sampleTurns : List Turn :=
  [(.createUser "salt" ⟨"bob", .undefined, .undefined, .undefined, .undefined, .undefined⟩,
      fun n => sampleTick "b" n),
    (.patchGroup "g" [some (membersOperation "add" ["b", "u"])], sampleTicks),
    (.createGroup ⟨"staff", .undefined, .undefined⟩, sampleTicks), (.deleteGroup "g", sampleTicks)]

theorem session_refines_sample :
    List.Forall₂ (Agrees sampleEnv) (runAll (serveTurn sampleEnv) sampleTurns sampleStore).1
        (runAll (performTurn sampleEnv) sampleTurns (directory sampleStore sampleStore_valid)).1 ∧
      (runAll (serveTurn sampleEnv) sampleTurns sampleStore).2.Valid ∧
      Represents (runAll (serveTurn sampleEnv) sampleTurns sampleStore).2
        (runAll (performTurn sampleEnv) sampleTurns (directory sampleStore sampleStore_valid)).2 :=
  session_refines sampleEnv sampleStore_valid sampleTurns

section RowOrder

/-- The tables hold the same rows, each in any order. -/
structure SameRows (s s' : Store) : Prop where
  users : s.users.Perm s'.users
  groups : s.groups.Perm s'.groups
  members : s.members.Perm s'.members

/-- Representations of a group that list the same members. -/
structure AlikeGroups (rep rep' : GroupRep) : Prop where
  members : rep.members.Perm rep'.members
  rest : { rep with members := [] } = { rep' with members := [] }

/-- The same rows twice, sorted by their time of creation: rows of one time may
stand in another order. -/
structure Resorted {α : Type} (createdAt : α → ℕ) (rows rows' : List α) : Prop where
  perm : rows.Perm rows'
  sorted : SortedBy createdAt rows
  sorted' : SortedBy createdAt rows'

/-- The answer to a list request whose sorted matches are `rows`. -/
def userListAnswer (env : Env) (pagination : Pagination) (rows : List ScimUser) : Answer :=
  ⟨200, .userList (listResponse rows.length pagination.startIndex
    ((pageOf pagination rows).map fun u => toScimUser u env.baseUrl))⟩

/-- Answers that are equal but for the order of members, and lists that are one
window of two sorts of the same matches. -/
inductive AlikeAnswers (env : Env) : Answer → Answer → Prop
  | same (a : Answer) : AlikeAnswers env a a
  | group (status : ℕ) {rep rep' : GroupRep} :
    AlikeGroups rep rep' → AlikeAnswers env ⟨status, .group rep⟩ ⟨status, .group rep'⟩
  | userList (pagination : Pagination) {rows rows' : List ScimUser} :
    Resorted ScimUser.createdAt rows rows' →
    AlikeAnswers env (userListAnswer env pagination rows) (userListAnswer env pagination rows')
  | groupList (pagination : Pagination) {rows rows' : List (ScimGroup × Set MemberRep)}
      {reps reps' : List GroupRep} :
    Resorted (fun p => p.1.createdAt) rows rows' →
    List.Forall₂ (fun p rep => ShowsTeam env p.1 p.2 rep) (pageOf pagination rows) reps →
    List.Forall₂ (fun p rep => ShowsTeam env p.1 p.2 rep) (pageOf pagination rows') reps' →
    AlikeAnswers env ⟨200, .groupList (listResponse rows.length pagination.startIndex reps)⟩
      ⟨200, .groupList (listResponse rows'.length pagination.startIndex reps')⟩

inductive AlikeResults (env : Env) :
    Except Exception Answer → Except Exception Answer → Prop
  | ok {a a' : Answer} : AlikeAnswers env a a' → AlikeResults env (.ok a) (.ok a')
  | error (e : Exception) : AlikeResults env (.error e) (.error e)

/-- One request with the same clock and ids; the rows may be scanned otherwise. -/
structure SameTurn (turn turn' : Turn) : Prop where
  request : turn.1 = turn'.1
  uuid : ∀ n, (turn.2 n).uuid = (turn'.2 n).uuid
  now : ∀ n, (turn.2 n).now = (turn'.2 n).now

section Rows

variable {s s' : Store} {d : Directory}

theorem mem_users_iff (hs : s.Valid) (h : Represents s d) (u : ScimUser) :
    u ∈ s.users ↔ d.accounts.get u.id = some u := by
  rw [h.account, hs.user_eq_some_iff]
  simp

theorem mem_groups_iff (hs : s.Valid) (h : Represents s d) (g : ScimGroup) :
    g ∈ s.groups ↔ (d.teams.get g.id).map Team.row = some g := by
  have hrow : (d.teams.get g.id).map Team.row = s.group g.id := by
    rw [h.team, Option.map_map]
    exact Option.map_id'
  rw [hrow, hs.group_eq_some_iff]
  simp

theorem mem_members_iff (hs : s.Valid) (h : Represents s d) (m : ScimGroupMember) :
    m ∈ s.members ↔ ∃ team, d.teams.get m.groupId = some team ∧ m.userId ∈ team.members := by
  rw [h.team]
  constructor
  · intro hm
    obtain ⟨g, hg⟩ := Option.isSome_iff_exists.mp (hs.memberGroup m hm)
    exact ⟨_, by rw [hg]; rfl, hm⟩
  · rintro ⟨team, hteam, hm⟩
    obtain ⟨g, _, rfl⟩ := Option.map_eq_some_iff.mp hteam
    exact hm

/-- Tables that represent one directory hold the same rows. -/
theorem sameRows_of_represents (hs : s.Valid) (hs' : s'.Valid) (h : Represents s d)
    (h' : Represents s' d) : SameRows s s' where
  users := (List.perm_ext_iff_of_nodup (hs.userIds.of_map _) (hs'.userIds.of_map _)).mpr
    fun u => (mem_users_iff hs h u).trans (mem_users_iff hs' h' u).symm
  groups := (List.perm_ext_iff_of_nodup (hs.groupIds.of_map _) (hs'.groupIds.of_map _)).mpr
    fun g => (mem_groups_iff hs h g).trans (mem_groups_iff hs' h' g).symm
  members := (List.perm_ext_iff_of_nodup hs.memberPairs hs'.memberPairs).mpr
    fun m => (mem_members_iff hs h m).trans (mem_members_iff hs' h' m).symm

theorem SameRows.represents (hsame : SameRows s s') (hs : s.Valid) (hs' : s'.Valid)
    (h : Represents s d) : Represents s' d where
  account id := by
    rw [h.account]
    refine Option.ext fun u => ?_
    rw [hs.user_eq_some_iff, hs'.user_eq_some_iff, hsame.users.mem_iff]
  team g := by
    have hset : memberSet s' g = memberSet s g := by
      ext u
      exact hsame.members.mem_iff.symm
    have hgroup : s'.group g = s.group g := by
      refine Option.ext fun row => ?_
      rw [hs.group_eq_some_iff, hs'.group_eq_some_iff, hsame.groups.mem_iff]
    rw [hset, hgroup, h.team]

end Rows

section Replies

variable {env : Env}

theorem resorted_of_enumerates {α : Type} {createdAt : α → ℕ} {rows rows' : List α}
    {matching : Set α} (h : Enumerates createdAt rows matching)
    (h' : Enumerates createdAt rows' matching) : Resorted createdAt rows rows' where
  perm := (List.perm_ext_iff_of_nodup h.nodup h'.nodup).mpr
    fun a => (h.listed a).trans (h'.listed a).symm
  sorted := h.sorted
  sorted' := h'.sorted

theorem showsTeam_alike {row : ScimGroup} {members : Set MemberRep} {rep rep' : GroupRep}
    (h : ShowsTeam env row members rep) (h' : ShowsTeam env row members rep') :
    AlikeGroups rep rep' where
  members := (List.perm_ext_iff_of_nodup h.nodup h'.nodup).mpr
    fun m => (h.listed m).trans (h'.listed m).symm
  rest := h.rest.trans h'.rest.symm

/-- Answers that show one reply. -/
theorem shows_alike {reply : Reply} {a a' : Answer} (h : Shows env reply a)
    (h' : Shows env reply a') : AlikeAnswers env a a' := by
  cases h with
  | account status u =>
    cases h'
    exact .same _
  | team status hshows =>
    cases h' with
    | team _ hshows' => exact .group status (showsTeam_alike hshows hshows')
  | accounts pagination hrows =>
    cases h' with
    | accounts _ hrows' =>
      have halike : AlikeAnswers env _ _ :=
        .userList pagination (resorted_of_enumerates hrows hrows')
      simpa only [userListAnswer, listResponse, List.length_map] using halike
  | teams pagination hrows hreps =>
    cases h' with
    | teams _ hrows' hreps' =>
      exact .groupList pagination (resorted_of_enumerates hrows hrows') hreps hreps'
  | done =>
    cases h'
    exact .same _

end Replies

/-- An operation of the directory uses the clock and the ids alone. -/
theorem perform_congr (env : Env) {ticks ticks' : ℕ → Tick} (r : Request) (d : Directory)
    (huuid : ∀ n, (ticks n).uuid = (ticks' n).uuid) (hnow : ∀ n, (ticks n).now = (ticks' n).now) :
    perform env ticks r d = perform env ticks' r d := by
  have huser : ∀ data, newUser (ticks 1) data = newUser (ticks' 1) data := by
    intro data
    simp only [newUser, huuid, hnow]
  have hgroup : ∀ data, newGroup (ticks 1) data = newGroup (ticks' 1) data := by
    intro data
    simp only [newGroup, huuid, hnow]
  cases r <;> simp only [perform, huser, hgroup, hnow]

theorem performTurn_congr (env : Env) {turn turn' : Turn} (h : SameTurn turn turn')
    (d : Directory) : performTurn env turn d = performTurn env turn' d := by
  unfold performTurn
  rw [h.request, perform_congr env turn'.1 d h.uuid h.now]

theorem agrees_alike {env : Env} {x x' : Except Exception Answer}
    {y : Except Exception Reply} (h : Agrees env x y) (h' : Agrees env x' y) :
    AlikeResults env x x' := by
  cases h with
  | shows hshows =>
    cases h' with
    | shows hshows' => exact .ok (shows_alike hshows hshows')
  | refused e =>
    cases h' with
    | refused => exact .error e

/-- Nothing but the order of what is listed tells apart two stores that hold the
same rows: after any session, from any scans, they hold the same rows again. -/
theorem row_order_invisible (env : Env) {s s' : Store} (hs : s.Valid) (hs' : s'.Valid)
    (hsame : SameRows s s') {turns turns' : List Turn}
    (hturns : List.Forall₂ SameTurn turns turns') :
    List.Forall₂ (AlikeResults env) (runAll (serveTurn env) turns s).1
        (runAll (serveTurn env) turns' s').1 ∧
      SameRows (runAll (serveTurn env) turns s).2 (runAll (serveTurn env) turns' s').2 := by
  have hstep : ∀ turn turn', SameTurn turn turn' →
      Alike (serveTurn env) (serveTurn env)
        (fun s s' => s.Valid ∧ s'.Valid ∧ ∃ d, Represents s d ∧ Represents s' d) (AlikeResults env)
        turn turn' := by
    rintro turn turn' hturn s s' ⟨hs, hs', d, h, h'⟩
    obtain ⟨hagrees, hvalid, hrep⟩ := serveTurn_alike env turn s d ⟨hs, h⟩
    obtain ⟨hagrees', hvalid', hrep'⟩ := serveTurn_alike env turn' s' d ⟨hs', h'⟩
    rw [← performTurn_congr env hturn d] at hagrees' hrep'
    exact ⟨agrees_alike hagrees hagrees', hvalid, hvalid', _, hrep, hrep'⟩
  obtain ⟨hresults, hvalid, hvalid', d, h, h'⟩ := runAll_alike (hturns.imp hstep)
    ⟨hs, hs', directory s hs, represents_directory s hs,
      hsame.represents hs hs' (represents_directory s hs)⟩
  exact ⟨hresults, sameRows_of_represents hvalid hvalid' h h'⟩

/-- Two users in the one group, with the rows in either order. -/
def twoUsers : Store :=
  ⟨[sampleUser "u" "ann", sampleUser "v" "bob"], [sampleGroup "g" "staff"],
    [⟨"g", "u"⟩, ⟨"g", "v"⟩]⟩

def twoUsersReversed : Store :=
  ⟨[sampleUser "v" "bob", sampleUser "u" "ann"], [sampleGroup "g" "staff"],
    [⟨"g", "v"⟩, ⟨"g", "u"⟩]⟩

/-- The group is read, a page of one user is asked for, and all groups are. -/
def readings (scan : String → ℕ) : List Turn :=
  [.getGroup "g", .listUsers none ⟨1, (1 : ℕ)⟩, .listGroups none ⟨1, (100 : ℕ)⟩].map
    fun r => (r, fun n => ⟨(sampleTicks n).uuid, (sampleTicks n).now, scan⟩)

/-- A scan that comes to the first user last. -/
def annLast (id : String) : ℕ := if id = "u" then 1 else 0

theorem row_order_invisible_sample :
    List.Forall₂ (AlikeResults sampleEnv)
        (runAll (serveTurn sampleEnv) (readings fun _ => 0) twoUsers).1
        (runAll (serveTurn sampleEnv) (readings annLast) twoUsersReversed).1 ∧
      SameRows (runAll (serveTurn sampleEnv) (readings fun _ => 0) twoUsers).2
        (runAll (serveTurn sampleEnv) (readings annLast) twoUsersReversed).2 := by
  have hvalid : twoUsers.Valid := ⟨by decide, by decide, by decide, by decide, by decide, by decide,
    by decide⟩
  have hvalid' : twoUsersReversed.Valid := ⟨by decide, by decide, by decide, by decide, by decide,
    by decide, by decide⟩
  have hturn : ∀ r : Request, SameTurn
      (r, fun n => ⟨(sampleTicks n).uuid, (sampleTicks n).now, fun _ => 0⟩)
      (r, fun n => ⟨(sampleTicks n).uuid, (sampleTicks n).now, annLast⟩) :=
    fun r => ⟨rfl, fun _ => rfl, fun _ => rfl⟩
  exact row_order_invisible sampleEnv hvalid hvalid' ⟨by decide, by decide, by decide⟩
    (.cons (hturn _) (.cons (hturn _) (.cons (hturn _) .nil)))

end RowOrder

end OktaScim.DirectorySessions
