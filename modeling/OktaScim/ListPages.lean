import OktaScim.FilteredLists
import OktaScim.QueryNumbers
import OktaScim.TiedSorts

/-!
The pages that list requests are answered with. A page is a window over the
matching rows, sorted by their time of creation; every such sort is one that
the database may come to, as rows of one time are scanned in any order.
-/
namespace OktaScim.ListPages

open Programs Schema PrismaClient ScimFilter Representations Requests RequestPrograms
open FilteredLists TiedSorts

section Sorts

variable {α : Type} (createdAt : α → ℕ) (id : α → String)

theorem listBefore_total (t : Tick) (a b : α) :
    listBefore createdAt id t a b ∨ listBefore createdAt id t b a := by
  unfold listBefore
  omega

theorem listBefore_trans (t : Tick) {a b c : α} (hab : listBefore createdAt id t a b)
    (hbc : listBefore createdAt id t b c) : listBefore createdAt id t a c := by
  unfold listBefore at *
  omega

/-- The rows of a query, before a page is cut from them. -/
def queried (rows : List α) (t : Tick) : List α := rows.insertionSort (listBefore createdAt id t)

theorem queried_perm (rows : List α) (t : Tick) : (queried createdAt id rows t).Perm rows :=
  List.perm_insertionSort _ rows

theorem queried_pairwise (rows : List α) (t : Tick) :
    (queried createdAt id rows t).Pairwise (listBefore createdAt id t) := by
  have htotal : Std.Total (listBefore createdAt id t) := ⟨listBefore_total createdAt id t⟩
  have htrans : IsTrans α (listBefore createdAt id t) :=
    ⟨fun _ _ _ => listBefore_trans createdAt id t⟩
  exact List.pairwise_insertionSort _ rows

theorem queried_sorted (rows : List α) (t : Tick) :
    SortedBy createdAt (queried createdAt id rows t) := by
  refine (queried_pairwise createdAt id rows t).imp fun h => ?_
  unfold listBefore at h
  omega

/-- Every sort of the rows by their time is the answer of some scan. -/
theorem exists_scan {rows l : List α} (hids : (rows.map id).Nodup) (hl : l.Perm rows)
    (hsorted : SortedBy createdAt l) :
    ∃ scan : String → ℕ, ∀ uuid now, queried createdAt id rows ⟨uuid, now, scan⟩ = l := by
  have hids' : (l.map id).Nodup := (hl.map id).nodup_iff.mpr hids
  refine ⟨fun i => (l.map id).idxOf i, fun uuid now => ?_⟩
  have hpair : l.Pairwise (listBefore createdAt id ⟨uuid, now, fun i => (l.map id).idxOf i⟩) := by
    rw [List.pairwise_iff_getElem]
    intro i j hi hj hij
    have hkey := List.pairwise_iff_getElem.mp hsorted i j hi hj hij
    have hidx : ∀ k (hk : k < l.length), (l.map id).idxOf (id l[k]) = k := by
      intro k hk
      have hk' : k < (l.map id).length := by rwa [List.length_map]
      rw [← List.getElem_map (h := hk') id]
      exact hids'.idxOf_getElem k hk'
    simp only [listBefore, hidx]
    omega
  refine List.Perm.eq_of_pairwise ?_ (queried_pairwise createdAt id rows _) hpair
    ((queried_perm createdAt id rows _).trans hl.symm)
  intro a b ha hb hab hba
  have ha' : a ∈ rows := (queried_perm createdAt id rows _).mem_iff.mp ha
  have hb' : b ∈ rows := hl.mem_iff.mp hb
  have hidx : (l.map id).idxOf (id a) = (l.map id).idxOf (id b) := by
    unfold listBefore at hab hba
    dsimp only at hab hba
    omega
  have hmem : id a ∈ l.map id := List.mem_map_of_mem (hl.mem_iff.mpr ha')
  exact List.inj_on_of_nodup_map hids ha' hb' ((List.idxOf_inj hmem).mp hidx)

end Sorts

section Answers

variable (env : Env) (ticks : ℕ → Tick) (s : Store) (filter : Option String)

/-- The users that a list request is about. -/
def listedUsers : List ScimUser :=
  matchingUsers (UsersService.listWhere (parseEqFilter filter) "userName") s

def listedGroups : List ScimGroup :=
  matchingGroups (UsersService.listWhere (parseEqFilter filter) "displayName") s

/-- The page of users that a list request is answered with. -/
def userPage (pagination : Pagination) (t : Tick) : List ScimUser :=
  pageOf pagination (queried ScimUser.createdAt ScimUser.id (listedUsers s filter) t)

def groupPage (pagination : Pagination) (t : Tick) : List ScimGroup :=
  pageOf pagination (queried ScimGroup.createdAt ScimGroup.id (listedGroups s filter) t)

theorem pageOf_first {α : Type} (count : ℕ) (rows : List α) :
    pageOf ⟨1, count⟩ rows = rows.take count := by
  simp only [pageOf, Pagination.skip, skip_one, Nat.floor_zero, List.drop_zero, Nat.floor_natCast]

theorem serve_listUsers_page {pagination : Pagination} (h : Pageable pagination) :
    serve env ticks (.listUsers filter pagination) s =
      (.ok ⟨200, .userList (listResponse (listedUsers s filter).length pagination.startIndex
        ((userPage s filter pagination (ticks 0)).map fun u => toScimUser u env.baseUrl))⟩, s) := by
  unfold serve
  rw [handle_listUsers]
  simp only [run, exec, userList, window_eq, if_pos h, rejects, listResponse, List.length_map]
  rfl

theorem serve_listGroups_page {pagination : Pagination} (h : Pageable pagination) :
    serve env ticks (.listGroups filter pagination) s =
      (.ok ⟨200, .groupList (listResponse (listedGroups s filter).length pagination.startIndex
        ((groupPage s filter pagination (ticks 0)).map fun g =>
          toScimGroup (withMembers s g) env.baseUrl))⟩, s) := by
  unfold serve
  rw [handle_listGroups]
  simp only [run, exec, groupList, window_eq, if_pos h, rejects, listResponse, List.length_map,
    List.map_map]
  rfl

end Answers

end OktaScim.ListPages
