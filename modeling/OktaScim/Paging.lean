import OktaScim.ListPages

/-!
A client that pages through a list. Every page is a query of its own, sorted by
the time of creation alone, and rows created in the same millisecond may come
in another order in each. The pages make up the list whatever these orders are
exactly when no page ends between rows of one time, and the database takes the
numbers of every page. Numbers above 2 ^ 53 are rounded to doubles, so that the
windows asked for are no longer those of the client.
-/
namespace OktaScim.Paging

open Schema PrismaClient ScimFilter Representations Requests RequestPrograms FilteredLists
open QueryNumbers Doubles TiedSorts ListPages

section Clients

variable {α : Type} (Answered : ℕ → ListResponse α → Prop) (c : ℕ)

/-- What a client collects with the page size `c` from a start index on, until
the start index exceeds the total. Every page that it asks for is answered. -/
inductive Collects : ℕ → List α → Prop
  | last {start : ℕ} {page : ListResponse α} : Answered start page →
      page.totalResults < start + c → Collects start page.Resources
  | more {start : ℕ} {page : ListResponse α} {rest : List α} : Answered start page →
      start + c ≤ page.totalResults → Collects (start + c) rest →
      Collects start (page.Resources ++ rest)

/-- The pages of a list of `n` resources, and the first one of an empty list. -/
def pageCount (n : ℕ) : ℕ := (n - 1) / c + 1

/-- The first `m` pages from page `j` on. -/
def collected (get : ℕ → ListResponse α) (j m : ℕ) : List α :=
  (List.range' j m).flatMap fun k => (get (1 + k * c)).Resources

variable {Answered c} {Fits : ℕ → Prop} {get : ℕ → ListResponse α} {n : ℕ}

theorem lt_pageCount_iff (hc : 0 < c) (k : ℕ) : k < pageCount c n ↔ k = 0 ∨ k * c < n := by
  unfold pageCount
  rw [Nat.lt_add_one_iff, Nat.le_div_iff_mul_le hc]
  rcases Nat.eq_zero_or_pos k with rfl | hpos
  · simp
  · have hmul := Nat.mul_pos hpos hc
    omega

theorem pageCount_pos (c n : ℕ) : 0 < pageCount c n := Nat.succ_pos _

-- a page is answered where it fits, in one way and with the one total
variable (hc : 0 < c)
  (hanswered : ∀ start, 1 ≤ start → ∀ page, Answered start page ↔ Fits start ∧ page = get start)
  (hn : ∀ start, (get start).totalResults = n)

include hc hanswered hn

theorem collected_of_collects {start : ℕ} {items : List α} (h : Collects Answered c start items)
    (j : ℕ) (hstart : start = 1 + j * c) (hj : j < pageCount c n) :
    (∀ k, j ≤ k → k < pageCount c n → Fits (1 + k * c)) ∧
      items = collected c get j (pageCount c n - j) := by
  induction h generalizing j with
  | last hpage hend =>
    obtain ⟨hfits, rfl⟩ := (hanswered _ (by omega) _).mp hpage
    rw [hn, hstart] at hend
    have hover : ¬j + 1 < pageCount c n := by
      rw [lt_pageCount_iff hc, Nat.succ_mul]
      omega
    rw [show pageCount c n - j = 1 by omega, collected, List.range'_one,
      List.flatMap_singleton, ← hstart]
    refine ⟨fun k hk hk' => ?_, rfl⟩
    obtain rfl : k = j := by omega
    rwa [← hstart]
  | more hpage hmore _ ih =>
    obtain ⟨hfits, rfl⟩ := (hanswered _ (by omega) _).mp hpage
    rw [hn, hstart] at hmore
    have hnext : j + 1 < pageCount c n := by
      rw [lt_pageCount_iff hc, Nat.succ_mul]
      omega
    obtain ⟨hrest, hitems⟩ := ih (j + 1) (by rw [hstart, Nat.succ_mul]; omega) hnext
    constructor
    · intro k hk hk'
      rcases Nat.eq_or_lt_of_le hk with rfl | hlt
      · rwa [← hstart]
      · exact hrest k hlt hk'
    · obtain ⟨d, hd⟩ : ∃ d, pageCount c n - j = d + 1 := ⟨pageCount c n - j - 1, by omega⟩
      rw [show pageCount c n - (j + 1) = d by omega] at hitems
      rw [hd, collected, List.range'_succ, List.flatMap_cons, hitems, hstart]
      rfl

theorem collects_collected (hfits : ∀ k < pageCount c n, Fits (1 + k * c)) (d j : ℕ)
    (hd : j + d + 1 = pageCount c n) :
    Collects Answered c (1 + j * c) (collected c get j (d + 1)) := by
  have hpage := (hanswered (1 + j * c) (by omega) _).mpr ⟨hfits j (by omega), rfl⟩
  have hnext := lt_pageCount_iff (n := n) hc (j + 1)
  rw [Nat.succ_mul] at hnext
  induction d generalizing j with
  | zero =>
    rw [collected, List.range'_one, List.flatMap_singleton]
    exact .last hpage (by rw [hn]; omega)
  | succ d ih =>
    have hrest := ih (j + 1) (by omega)
      ((hanswered _ (by omega) _).mpr ⟨hfits (j + 1) (by omega), rfl⟩)
      (by simpa only [Nat.succ_mul] using lt_pageCount_iff (n := n) hc (j + 1 + 1))
    rw [Nat.succ_mul, ← Nat.add_assoc] at hrest
    rw [collected, List.range'_succ, List.flatMap_cons]
    exact .more hpage (by rw [hn]; omega) hrest

/-- The client comes to an end exactly when all its pages are answered. -/
theorem collects_iff {items : List α} :
    Collects Answered c 1 items ↔
      (∀ k < pageCount c n, Fits (1 + k * c)) ∧ items = collected c get 0 (pageCount c n) := by
  constructor
  · intro h
    have hall := collected_of_collects hc hanswered hn h 0 (by omega) (pageCount_pos c n)
    exact ⟨fun k => hall.1 k (Nat.zero_le k), hall.2⟩
  · rintro ⟨hfits, rfl⟩
    have hpos := pageCount_pos c n
    have hall := collects_collected hc hanswered hn hfits (pageCount c n - 1) 0 (by omega)
    rwa [Nat.zero_mul, Nat.sub_add_cancel hpos] at hall

end Clients

section Numbers

variable {c : ℕ}

/-- The paging parameters that a client sends. -/
def pageQuery (c start : ℕ) : Pagination :=
  parsePagination (some (toString start)) (some (toString c))

/-- The resources skipped for a start index, as a double. -/
def firstAsked (start : ℕ) : ℕ := ⌊max (sub (finiteOr 1 start) 1) 0⌋₊

/-- The page size as a double. -/
def countAsked (c : ℕ) : ℕ := ⌊finiteOr 100 c⌋₊

theorem pageQuery_eq {start : ℕ} (hstart : 1 ≤ start) :
    pageQuery c start = ⟨finiteOr 1 start, finiteOr 100 c⟩ :=
  parsePagination_toString hstart c

theorem pageOf_pageQuery {α : Type} {start : ℕ} (hstart : 1 ≤ start) (rows : List α) :
    pageOf (pageQuery c start) rows = (rows.drop (firstAsked start)).take (countAsked c) := by
  rw [pageQuery_eq hstart]
  rfl

theorem one_le_finiteOr {otherwise n : ℕ} (ho : 1 ≤ otherwise) (hn : 1 ≤ n) :
    1 ≤ finiteOr otherwise n := by
  unfold finiteOr
  split
  · exact one_le_nearest hn
  · exact_mod_cast ho

theorem finiteOr_small {otherwise n : ℕ} (hn : n ≤ 2 ^ 53) : finiteOr otherwise n = n := by
  have hlarge := two_pow_lt_infinity
  rw [finiteOr, if_pos (by omega), nearest_natCast hn]

theorem countAsked_small (hc : c ≤ 2 ^ 53) : countAsked c = c := by
  rw [countAsked, finiteOr_small hc, Nat.floor_natCast]

theorem firstAsked_small {start : ℕ} (hone : 1 ≤ start) (h : start ≤ 2 ^ 53) :
    firstAsked start = start - 1 := by
  rw [firstAsked, finiteOr_small h, sub_one_natCast hone h, max_eq_left (by simp),
    Nat.floor_natCast]

theorem pageable_pageQuery_one :
    Pageable (pageQuery c 1) ↔ FitsInt64 (finiteOr 100 c) := by
  rw [pageQuery_eq (le_refl 1), Pageable, Pagination.skip, finiteOr_small (by omega), Nat.cast_one,
    skip_one]
  exact and_iff_right (by norm_num [FitsInt64])

theorem pageable_pageQuery_small {start : ℕ} (hone : 1 ≤ start) (h : start ≤ 2 ^ 53)
    (hc : c ≤ 2 ^ 53) : Pageable (pageQuery c start) := by
  have hfits : ∀ n : ℕ, n ≤ 2 ^ 53 → FitsInt64 n := by
    intro n hn
    change (n : ℚ) < 2 ^ 63
    exact_mod_cast (by omega : n < 2 ^ 63)
  rw [pageQuery_eq hone, finiteOr_small h, finiteOr_small hc]
  refine ⟨?_, hfits c hc⟩
  rw [Pagination.skip, sub_one_natCast hone h, max_eq_left (by simp)]
  exact hfits _ (by omega)

theorem countAsked_pos (hc : 1 ≤ c) : 0 < countAsked c := by
  have hone := one_le_finiteOr (show 1 ≤ 100 by omega) hc
  exact Nat.floor_pos.mpr hone

theorem firstAsked_one : firstAsked 1 = 0 := by
  rw [firstAsked, finiteOr_small (by omega), Nat.cast_one, skip_one, Nat.floor_zero]

/-- A later start index skips more, until it is taken for the first one. -/
theorem firstAsked_mono {a b : ℕ} (ha : 1 ≤ a) (h : a ≤ b) :
    firstAsked a ≤ firstAsked b ∨ firstAsked b = 0 := by
  unfold firstAsked
  by_cases hb : b < infinity
  · left
    have hone : 1 ≤ nearest (a : ℚ) := one_le_nearest ha
    have hnear : nearest (a : ℚ) ≤ nearest b := nearest_mono (by simp) (by exact_mod_cast h)
    have hsub : sub (nearest a) 1 ≤ sub (nearest b) 1 :=
      nearest_mono (sub_nonneg.mpr hone) (sub_le_sub_right hnear 1)
    rw [finiteOr, finiteOr, if_pos hb, if_pos (by omega)]
    exact Nat.floor_le_floor (max_le_max hsub (le_refl 0))
  · right
    rw [finiteOr, if_neg hb, Nat.cast_one, skip_one, Nat.floor_zero]

end Numbers

section Responses

variable {α β : Type} (createdAt : α → ℕ) (id : α → String) (rep : α → β) (rows : List α) (c : ℕ)

/-- The list answer for a start index, from a query made at the tick `t start`. -/
def response (t : ℕ → Tick) (start : ℕ) : ListResponse β :=
  listResponse rows.length (pageQuery c start).startIndex
    ((pageOf (pageQuery c start) (queried createdAt id rows (t start))).map rep)

/-- Every page is answered and the client gets all resources once. -/
def Whole (t : ℕ → Tick) : Prop :=
  (∀ k < pageCount c rows.length, Pageable (pageQuery c (1 + k * c))) ∧
    (collected c (response createdAt id rep rows c t) 0 (pageCount c rows.length)).Perm
      (rows.map rep)

/-- The database takes the numbers of every page, the windows that they stand
for follow one another until the list ends, and none ends between rows of one
time. -/
structure PagesWhole : Prop where
  fits : ∀ k, k = 0 ∨ k * c < rows.length → Pageable (pageQuery c (1 + k * c))
  starts : ∀ k, k * c < rows.length →
    min (firstAsked (1 + k * c)) rows.length = min (k * countAsked c) rows.length
  enough : ∀ k, rows.length ≤ k * c → rows.length ≤ k * countAsked c
  ends : ∀ k, ¬TieCut createdAt rows (k * countAsked c)

variable {createdAt id rep rows c}

theorem collected_response (t : ℕ → Tick) (m : ℕ) :
    collected c (response createdAt id rep rows c t) 0 m =
      ((List.range m).flatMap fun k =>
        ((queried createdAt id rows (t (1 + k * c))).drop (firstAsked (1 + k * c))).take
          (countAsked c)).map rep := by
  rw [collected, List.map_flatMap, ← List.range_eq_range']
  refine List.flatMap_congr fun k _ => ?_
  rw [← pageOf_pageQuery (Nat.le_add_right 1 _)]
  rfl

theorem length_le_pages (hc : 0 < c) : rows.length ≤ pageCount c rows.length * c := by
  have hend := (lt_pageCount_iff (n := rows.length) hc (pageCount c rows.length)).not.mp
    (Nat.lt_irrefl _)
  omega

theorem whole_of_pagesWhole (hc : 0 < c) (h : PagesWhole createdAt rows c) (t : ℕ → Tick) :
    Whole createdAt id rep rows c t := by
  have hsorts : ∀ k, (queried createdAt id rows (t (1 + k * c))).Perm rows ∧
      SortedBy createdAt (queried createdAt id rows (t (1 + k * c))) :=
    fun k => ⟨queried_perm createdAt id rows _, queried_sorted createdAt id rows _⟩
  refine ⟨fun k hk => h.fits k ((lt_pageCount_iff hc k).mp hk), ?_⟩
  have haligned : ∀ k < pageCount c rows.length,
      min (firstAsked (1 + k * c)) rows.length = min (k * countAsked c) rows.length := by
    intro k hk
    rcases (lt_pageCount_iff hc k).mp hk with rfl | hlt
    · rw [Nat.zero_mul, Nat.zero_mul, Nat.add_zero, firstAsked_one]
    · exact h.starts k hlt
  have hall := pages_perm hsorts h.ends (pageCount c rows.length)
  rw [List.take_of_length_le (by
    rw [(hsorts _).1.length_eq]
    exact h.enough _ (length_le_pages hc))] at hall
  rw [collected_response, windows_eq_pages (fun k => (hsorts k).1.length_eq) haligned]
  exact (hall.trans (hsorts _).1).map rep

theorem nodup_of_perm {γ : Type} {items : List β} {repId : β → γ} {key : α → γ}
    (hids : (rows.map key).Nodup) (hrep : ∀ x, repId (rep x) = key x)
    (h : items.Perm (rows.map rep)) : items.Nodup := by
  have hmap : (rows.map rep).map repId = rows.map key := by
    rw [List.map_map]
    exact List.map_congr_left fun x _ => hrep x
  have hnodup := (h.map repId).nodup_iff.mpr (by rwa [hmap])
  exact hnodup.of_map repId

/-- Where every query sorts alike, the windows asked for follow one another. -/
theorem aligned_of_whole {repId : β → String} (hc : 0 < c) (hids : (rows.map id).Nodup)
    (hrep : ∀ x, repId (rep x) = id x) (t : Tick)
    (h : Whole createdAt id rep rows c fun _ => t) :
    (∀ k < pageCount c rows.length,
      min (firstAsked (1 + k * c)) rows.length = min (k * countAsked c) rows.length) ∧
      rows.length ≤ pageCount c rows.length * countAsked c := by
  have hperm := h.2
  have hnodup := nodup_of_perm hids hrep hperm
  rw [collected_response] at hperm hnodup
  have hrows := queried_perm createdAt id rows t
  have hl : (queried createdAt id rows t).Nodup := hrows.nodup_iff.mpr hids.of_map
  have hlen := hperm.length_eq
  rw [List.length_map, List.length_map] at hlen
  have hsubset : ∀ x ∈ (List.range (pageCount c rows.length)).flatMap fun k =>
      ((queried createdAt id rows t).drop (firstAsked (1 + k * c))).take (countAsked c),
      x ∈ queried createdAt id rows t := by
    intro x hx
    obtain ⟨k, _, hk⟩ := List.mem_flatMap.mp hx
    exact List.mem_of_mem_drop (List.mem_of_mem_take hk)
  have hall := (List.subperm_of_subset hnodup.of_map hsubset).perm_of_length_le
    (by rw [hrows.length_eq, hlen])
  rw [← hrows.length_eq] at hall ⊢
  refine aligned_of_windows hl (countAsked_pos hc) ?_ (fun j k hjk => ?_) hall
  · rw [Nat.zero_mul, Nat.add_zero, firstAsked_one]
  · have hmul := Nat.mul_le_mul_right c hjk
    exact firstAsked_mono (by omega) (by omega)

/-- The pages make up the list in every order of ties exactly when they are whole. -/
theorem whole_iff (rep : α → β) (repId : β → String) (hc : 0 < c) (hids : (rows.map id).Nodup)
    (hrep : ∀ x, repId (rep x) = id x) :
    (∀ t : ℕ → Tick, Whole createdAt id rep rows c t) ↔ PagesWhole createdAt rows c := by
  refine ⟨fun h => ?_, fun h t => whole_of_pagesWhole hc h t⟩
  obtain ⟨haligned, hlast⟩ := aligned_of_whole hc hids hrep ⟨"", 0, fun _ => 0⟩ (h _)
  refine ⟨fun k hk => ?_, fun k hk => ?_, fun k hk => ?_, fun k hcut => ?_⟩
  · exact (h fun _ => ⟨"", 0, fun _ => 0⟩).1 k ((lt_pageCount_iff hc k).mpr hk)
  · exact haligned k ((lt_pageCount_iff hc k).mpr (Or.inr hk))
  · rcases Nat.eq_zero_or_pos rows.length with hnil | hpos
    · omega
    · have hover : ¬k < pageCount c rows.length := by
        rw [lt_pageCount_iff hc]
        rintro (rfl | hlt)
        · omega
        · omega
      have hmul := Nat.mul_le_mul_right (countAsked c) (not_lt.mp hover)
      omega
  · have hsorted := queried_sorted createdAt id rows ⟨"", 0, fun _ => 0⟩
    obtain ⟨sorts, hsorts, hrepeat⟩ := exists_repeating_pages (countAsked_pos hc)
      (queried_perm createdAt id rows _) hsorted hcut
    choose scan hscan using fun j => exists_scan createdAt id hids (hsorts j).1 (hsorts j).2
    have hperm := (h fun start => ⟨"", 0, scan ((start - 1) / c)⟩).2
    have hnodup := nodup_of_perm hids hrep hperm
    rw [collected_response] at hnodup
    have hqueries : ∀ k, queried createdAt id rows ⟨"", 0, scan ((1 + k * c - 1) / c)⟩ =
        sorts k := by
      intro k
      rw [Nat.add_sub_cancel_left, Nat.mul_div_cancel k hc, hscan]
    simp only [hqueries] at hnodup
    rw [windows_eq_pages (fun j => (hsorts j).1.length_eq) haligned] at hnodup
    refine hrepeat _ ?_ hnodup.of_map
    by_contra hover
    have hmul := Nat.mul_le_mul_right (countAsked c) (not_lt.mp hover)
    exact not_tieCut_of_le (by omega) hcut

/-- A list that fits on one page. -/
theorem pagesWhole_single (hrows : rows.length ≤ c) :
    PagesWhole createdAt rows c ↔
      FitsInt64 (finiteOr 100 c) ∧ rows.length ≤ countAsked c := by
  have hfirst : ∀ k, k * c < rows.length → k = 0 := by
    intro k hk
    by_contra hne
    have hmul := Nat.le_mul_of_pos_left c (Nat.pos_of_ne_zero hne)
    omega
  constructor
  · intro h
    have hpage := h.fits 0 (Or.inl rfl)
    rw [Nat.zero_mul, Nat.add_zero, pageable_pageQuery_one] at hpage
    have henough := h.enough 1 (by rwa [Nat.one_mul])
    exact ⟨hpage, by rwa [Nat.one_mul] at henough⟩
  · rintro ⟨hfits, hcount⟩
    have hlater : ∀ k, 0 < k → rows.length ≤ k * countAsked c := fun k hk =>
      hcount.trans (Nat.le_mul_of_pos_left _ hk)
    refine ⟨fun k hk => ?_, fun k hk => ?_, fun k hk => ?_, fun k => ?_⟩
    · obtain rfl : k = 0 := by
        rcases hk with hzero | hk
        · exact hzero
        · exact hfirst k hk
      rwa [Nat.zero_mul, Nat.add_zero, pageable_pageQuery_one]
    · rw [hfirst k hk, Nat.zero_mul, Nat.zero_mul, Nat.add_zero, firstAsked_one]
    · rcases Nat.eq_zero_or_pos k with rfl | hpos
      · omega
      · exact hlater k hpos
    · rcases Nat.eq_zero_or_pos k with rfl | hpos
      · rw [Nat.zero_mul]
        exact not_tieCut_zero rows
      · exact not_tieCut_of_le (hlater k hpos)

/-- For lists of up to 2 ^ 53 resources the windows are those of the client, and
a greater page size is only looked at for whether the database takes it, or for
the default that replaces one that is not finite. -/
theorem pagesWhole_iff (hc : 1 ≤ c) (hrows : rows.length ≤ 2 ^ 53) :
    PagesWhole createdAt rows c ↔
      (∀ k, ¬TieCut createdAt rows (k * c)) ∧
        if c < infinity then nearest c < 2 ^ 63 else rows.length ≤ 100 := by
  have hlarge := two_pow_lt_infinity
  rcases Nat.lt_or_ge (2 ^ 53) c with hover | hsmall
  · have hcuts : ∀ k, ¬TieCut createdAt rows (k * c) := by
      intro k
      rcases Nat.eq_zero_or_pos k with rfl | hpos
      · rw [Nat.zero_mul]
        exact not_tieCut_zero rows
      · have hmul := Nat.le_mul_of_pos_left c hpos
        exact not_tieCut_of_le (by omega)
    rw [pagesWhole_single (by omega)]
    split
    · rename_i hfinite
      have hnear : ((2 ^ 53 : ℕ) : ℚ) ≤ nearest c := by
        rw [← nearest_natCast (le_refl (2 ^ 53))]
        exact nearest_mono (by simp) (by exact_mod_cast hover.le)
      have hcount : rows.length ≤ countAsked c := by
        rw [countAsked, finiteOr, if_pos hfinite]
        exact hrows.trans (Nat.le_floor hnear)
      rw [finiteOr, if_pos hfinite]
      exact ⟨fun h => ⟨hcuts, h.1⟩, fun h => ⟨h.2, hcount⟩⟩
    · rename_i hinfinite
      rw [countAsked, finiteOr, if_neg hinfinite, Nat.floor_natCast]
      exact ⟨fun h => ⟨hcuts, h.2⟩, fun h => ⟨by norm_num [FitsInt64], h.2⟩⟩
  · have hnear : nearest (c : ℚ) < 2 ^ 63 := by
      rw [nearest_natCast hsmall]
      exact_mod_cast (by omega : c < 2 ^ 63)
    rw [if_pos (by omega)]
    constructor
    · intro h
      have hends := h.ends
      rw [countAsked_small hsmall] at hends
      exact ⟨hends, hnear⟩
    · rintro ⟨hends, _⟩
      rw [← countAsked_small hsmall] at hends
      refine ⟨fun k hk => ?_, fun k hk => ?_, fun k hk => ?_, hends⟩
      · have hstart : 1 + k * c ≤ 2 ^ 53 := by
          rcases hk with rfl | hk
          · omega
          · omega
        exact pageable_pageQuery_small (by omega) hstart hsmall
      · rw [firstAsked_small (by omega) (by omega), countAsked_small hsmall,
          Nat.add_sub_cancel_left]
      · rwa [countAsked_small hsmall]

end Responses

section Requests

variable (env : Env) (ticks : ℕ → ℕ → Tick) (s : Store) (filter : Option String) (c : ℕ)

/-- A client that pages through the users collects each matching user once. The
request for a start index has ticks of its own. -/
def CollectsUsers : Prop :=
  ∃ items, Collects (fun start page => serve env (ticks start)
      (.listUsers filter (pageQuery c start)) s = (.ok ⟨200, .userList page⟩, s)) c 1 items ∧
    items.Perm ((listedUsers s filter).map fun u => toScimUser u env.baseUrl)

def CollectsGroups : Prop :=
  ∃ items, Collects (fun start page => serve env (ticks start)
      (.listGroups filter (pageQuery c start)) s = (.ok ⟨200, .groupList page⟩, s)) c 1 items ∧
    items.Perm ((listedGroups s filter).map fun g => toScimGroup (withMembers s g) env.baseUrl)

variable {env ticks s filter c}

theorem collectsUsers_iff_whole (hc : 1 ≤ c) :
    CollectsUsers env ticks s filter c ↔
      Whole ScimUser.createdAt ScimUser.id (fun u => toScimUser u env.baseUrl)
        (listedUsers s filter) c fun start => ticks start 0 := by
  have hanswered : ∀ start, 1 ≤ start → ∀ page, serve env (ticks start)
      (.listUsers filter (pageQuery c start)) s = (.ok ⟨200, .userList page⟩, s) ↔
        Pageable (pageQuery c start) ∧ page = response ScimUser.createdAt ScimUser.id
          (fun u => toScimUser u env.baseUrl) (listedUsers s filter) c
          (fun start => ticks start 0) start := by
    intro start _ page
    by_cases hpage : Pageable (pageQuery c start)
    · rw [serve_listUsers_page env (ticks start) s filter hpage, and_iff_right hpage]
      simp [response, userPage, eq_comm]
    · rw [(serve_list_refused env (ticks start) s hpage filter).1]
      simp [hpage]
  unfold CollectsUsers Whole
  simp only [collects_iff hc hanswered fun _ => rfl]
  exact ⟨fun ⟨_, ⟨hfits, hitems⟩, hperm⟩ => ⟨hfits, hitems ▸ hperm⟩,
    fun ⟨hfits, hperm⟩ => ⟨_, ⟨hfits, rfl⟩, hperm⟩⟩

theorem collectsGroups_iff_whole (hc : 1 ≤ c) :
    CollectsGroups env ticks s filter c ↔
      Whole ScimGroup.createdAt ScimGroup.id
        (fun g => toScimGroup (withMembers s g) env.baseUrl)
        (listedGroups s filter) c fun start => ticks start 0 := by
  have hanswered : ∀ start, 1 ≤ start → ∀ page, serve env (ticks start)
      (.listGroups filter (pageQuery c start)) s = (.ok ⟨200, .groupList page⟩, s) ↔
        Pageable (pageQuery c start) ∧ page = response ScimGroup.createdAt ScimGroup.id
          (fun g => toScimGroup (withMembers s g) env.baseUrl) (listedGroups s filter) c
          (fun start => ticks start 0) start := by
    intro start _ page
    by_cases hpage : Pageable (pageQuery c start)
    · rw [serve_listGroups_page env (ticks start) s filter hpage, and_iff_right hpage]
      simp [response, groupPage, eq_comm]
    · rw [(serve_list_refused env (ticks start) s hpage filter).2]
      simp [hpage]
  unfold CollectsGroups Whole
  simp only [collects_iff hc hanswered fun _ => rfl]
  exact ⟨fun ⟨_, ⟨hfits, hitems⟩, hperm⟩ => ⟨hfits, hitems ▸ hperm⟩,
    fun ⟨hfits, hperm⟩ => ⟨_, ⟨hfits, rfl⟩, hperm⟩⟩

theorem nodup_listedUsers (hs : s.Valid) : ((listedUsers s filter).map ScimUser.id).Nodup := by
  unfold listedUsers matchingUsers
  split
  · exact hs.userIds
  · exact hs.userIds.sublist (List.filter_sublist.map _)

theorem nodup_listedGroups (hs : s.Valid) : ((listedGroups s filter).map ScimGroup.id).Nodup := by
  unfold listedGroups matchingGroups
  split
  · exact hs.groupIds
  · exact hs.groupIds.sublist (List.filter_sublist.map _)

theorem collectsUsers_iff (hs : s.Valid) (hc : 1 ≤ c) :
    (∀ ticks, CollectsUsers env ticks s filter c) ↔
      PagesWhole ScimUser.createdAt (listedUsers s filter) c := by
  rw [← whole_iff (fun u => toScimUser u env.baseUrl) UserRep.id hc (nodup_listedUsers hs)
    fun _ => rfl]
  simp only [collectsUsers_iff_whole hc]
  exact ⟨fun h t => h fun start _ => t start, fun h ticks => h fun start => ticks start 0⟩

theorem collectsGroups_iff (hs : s.Valid) (hc : 1 ≤ c) :
    (∀ ticks, CollectsGroups env ticks s filter c) ↔
      PagesWhole ScimGroup.createdAt (listedGroups s filter) c := by
  rw [← whole_iff (fun g => toScimGroup (withMembers s g) env.baseUrl) GroupRep.id hc
    (nodup_listedGroups hs) fun _ => rfl]
  simp only [collectsGroups_iff_whole hc]
  exact ⟨fun h t => h fun start _ => t start, fun h ticks => h fun start => ticks start 0⟩

end Requests

/-- Paging is whole in every order of ties exactly when its windows are. -/
theorem paging_whole_iff (env : Env) {s : Store} (hs : s.Valid) (filter : Option String) {c : ℕ}
    (hc : 1 ≤ c) :
    ((∀ ticks, CollectsUsers env ticks s filter c) ↔
      PagesWhole ScimUser.createdAt (listedUsers s filter) c) ∧
    ((∀ ticks, CollectsGroups env ticks s filter c) ↔
      PagesWhole ScimGroup.createdAt (listedGroups s filter) c) :=
  ⟨collectsUsers_iff hs hc, collectsGroups_iff hs hc⟩

/-- Three users and three groups, each created at a time of its own. -/
def spacedStore : Store where
  users :=
    [{ sampleUser "u" "ann" with createdAt := 3 }, { sampleUser "v" "bob" with createdAt := 1 },
      { sampleUser "w" "cy" with createdAt := 2 }]
  groups := [⟨"g", none, "staff", 2, 2⟩, ⟨"h", none, "crew", 1, 1⟩, ⟨"i", none, "board", 3, 3⟩]
  members := [⟨"g", "u"⟩]

theorem spacedStore_valid : spacedStore.Valid := by
  constructor <;> simp [spacedStore, sampleUser, Store.user, Store.group, KeyedRows.findRow]

/-- Two pages each: two resources, and the third one. -/
theorem paging_whole_iff_sample :
    (∀ ticks, CollectsUsers sampleEnv ticks spacedStore none 2) ∧
      ∀ ticks, CollectsGroups sampleEnv ticks spacedStore none 2 := by
  have hpaging := paging_whole_iff sampleEnv spacedStore_valid none (show 1 ≤ 2 by omega)
  have hlarge := two_pow_lt_infinity
  have hnear : nearest ((2 : ℕ) : ℚ) < 2 ^ 63 := by
    rw [nearest_natCast (by omega)]
    norm_num
  have husers : PagesWhole ScimUser.createdAt (listedUsers spacedStore none) 2 := by
    rw [pagesWhole_iff (by omega) (by decide), if_pos (by omega)]
    exact ⟨fun k => not_tieCut_of_nodup (by decide) _, hnear⟩
  have hgroups : PagesWhole ScimGroup.createdAt (listedGroups spacedStore none) 2 := by
    rw [pagesWhole_iff (by omega) (by decide), if_pos (by omega)]
    exact ⟨fun k => not_tieCut_of_nodup (by decide) _, hnear⟩
  exact ⟨hpaging.1.mpr husers, hpaging.2.mpr hgroups⟩

/-- Two users created in the same millisecond. -/
def tiedUsers : Store := ⟨[sampleUser "u" "ann", sampleUser "v" "bob"], [], []⟩

theorem tiedUsers_valid : tiedUsers.Valid := by
  constructor <;> simp [tiedUsers, sampleUser]

/-- With pages of one user, either may be seen twice and the other not at all. -/
theorem tied_users_repeat :
    tiedUsers.Valid ∧ ¬∀ ticks, CollectsUsers sampleEnv ticks tiedUsers none 1 := by
  refine ⟨tiedUsers_valid, fun h => ?_⟩
  have hwhole := (collectsUsers_iff tiedUsers_valid (Nat.le_refl 1)).mp h
  have hends := hwhole.ends 1
  rw [countAsked_small (by omega)] at hends
  refine hends ⟨sampleUser "u" "ann", ?_⟩
  decide

end OktaScim.Paging
