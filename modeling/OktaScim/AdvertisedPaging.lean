import OktaScim.ListPages
import Mathlib.Tactic.NormNum

/-!
The paging that is advertised to clients, from `discovery.controller.ts`,
against the windows that the lists really ask for. `parsePagination` looks at
the lower bounds of its numbers only, so a fraction is taken for a start index
and no page is too large, until the database refuses it.
-/
namespace OktaScim.AdvertisedPaging

open Programs Schema PrismaClient ScimFilter QueryNumbers Doubles Representations Requests
open RequestPrograms FilteredLists ListPages

section Discovery

structure Support : Type where
  supported : Bool

structure BulkSupport : Type extends Support where
  maxOperations : ℕ
  maxPayloadSize : ℕ

structure FilterSupport : Type extends Support where
  maxResults : ℕ

structure AuthenticationScheme : Type where
  type : String
  name : String
  description : String
  specUri : String

structure ServiceProviderConfig : Type where
  schemas : List String
  patch : Support
  bulk : BulkSupport
  filter : FilterSupport
  changePassword : Support
  sort : Support
  etag : Support
  authenticationSchemes : List AuthenticationScheme
  resourceType : String

def serviceProviderConfig : ServiceProviderConfig where
  schemas := ["urn:ietf:params:scim:schemas:core:2.0:ServiceProviderConfig"]
  patch := ⟨true⟩
  bulk := ⟨⟨false⟩, 0, 0⟩
  filter := ⟨⟨true⟩, 200⟩
  changePassword := ⟨true⟩
  sort := ⟨false⟩
  etag := ⟨false⟩
  authenticationSchemes := [{
    type := "oauth2"
    name := "OAuth 2.0"
    description := "Authentication via OAuth 2.0 authorization code grant with refresh tokens"
    specUri := "https://www.rfc-editor.org/info/rfc6749"
  }]
  resourceType := "ServiceProviderConfig"

def maxResults : ℕ := serviceProviderConfig.filter.maxResults

end Discovery

section Windows

/-- Numbers of a page that the server advertises. -/
structure Servable (p : Pagination) : Prop where
  startIndex : ∃ n : ℕ, 1 ≤ n ∧ p.startIndex = n
  count : ∃ n : ℕ, n ≤ maxResults ∧ p.count = n

/-- Both lists are answered, whatever is stored and filtered, with no more
resources than advertised. -/
def ListsServed (p : Pagination) : Prop :=
  ∀ (env : Env) (ticks : ℕ → Tick) (s : Store) (filter : Option String),
    (∃ total reps, serve env ticks (.listUsers filter p) s =
      (.ok ⟨200, .userList (listResponse total p.startIndex reps)⟩, s) ∧
        reps.length ≤ maxResults) ∧
    ∃ total reps, serve env ticks (.listGroups filter p) s =
      (.ok ⟨200, .groupList (listResponse total p.startIndex reps)⟩, s) ∧
        reps.length ≤ maxResults

theorem listsServed_of_pageable {p : Pagination} {n : ℕ} (h : Pageable p)
    (hcount : p.count = n) (hn : n ≤ maxResults) : ListsServed p := by
  have hpage : ∀ {α : Type} (rows : List α), (pageOf p rows).length ≤ maxResults := by
    intro α rows
    rw [pageOf, List.length_take, hcount, Nat.floor_natCast]
    exact le_trans (min_le_left ..) hn
  intro env ticks s filter
  refine ⟨⟨_, _, serve_listUsers_page env ticks s filter h, ?_⟩,
    ⟨_, _, serve_listGroups_page env ticks s filter h, ?_⟩⟩
  · rw [List.length_map]
    exact hpage _
  · rw [List.length_map]
    exact hpage _

/-- Lists are only answered for numbers that the database takes. -/
theorem pageable_of_listsServed {p : Pagination} (h : ListsServed p) : Pageable p := by
  by_contra hpage
  obtain ⟨⟨_, _, hserved, _⟩, _⟩ := h sampleEnv sampleTicks ⟨[], [], []⟩ none
  have hrefused := (serve_list_refused sampleEnv sampleTicks ⟨[], [], []⟩ hpage none).1
  rw [hserved] at hrefused
  cases hrefused

/-- A number that is not replaced by the default comes from the text. -/
theorem atLeast_eq (least otherwise : ℚ) (x : Option ℚ) :
    (∃ q, x = some q ∧ least ≤ q ∧ atLeast least otherwise x = q) ∨
      (∀ q, x = some q → ¬least ≤ q) ∧ atLeast least otherwise x = otherwise := by
  cases x with
  | none => exact Or.inr ⟨fun _ h => by contradiction, rfl⟩
  | some q =>
    by_cases hq : least ≤ q
    · exact Or.inl ⟨q, rfl, hq, by simp [atLeast, Option.filter, hq]⟩
    · refine Or.inr ⟨?_, by simp [atLeast, Option.filter, hq]⟩
      intro q' h
      cases h
      exact hq

theorem atLeast_some {least otherwise q : ℚ} (hq : least ≤ q) :
    atLeast least otherwise (some q) = q := by
  simp [atLeast, Option.filter, hq]

theorem exists_nat_eq {q : ℚ} (hq : 0 ≤ q) (hden : q.den = 1) : ∃ n : ℕ, q = n := by
  obtain ⟨n, hn⟩ := Int.eq_ofNat_of_zero_le (Rat.num_nonneg.mpr hq)
  refine ⟨n, ?_⟩
  rw [← Rat.coe_int_num_of_den_eq_one hden, hn, Int.cast_natCast]

/-- The start index of a query can be skipped to when it is below 2 ^ 63. -/
theorem fits_skip_iff {text : Option String} {q : ℚ} (h : number text = some q) (hq : 1 ≤ q)
    (count : ℚ) : FitsInt64 (Pagination.skip ⟨q, count⟩) ↔ q < 2 ^ 63 := by
  have hdouble := nearest_number h (zero_le_one.trans hq)
  rw [FitsInt64, Pagination.skip, max_lt_iff, sub_one_lt_iff hq hdouble]
  exact and_iff_left (by norm_num)

/-- The page of a query is served as advertised exactly when a start index from
one on is whole and below 2 ^ 63, and a count from zero on is whole and not
more than advertised. -/
theorem parsePagination_advertised_iff (startIndex count : Option String) :
    Servable (parsePagination startIndex count) ∧ ListsServed (parsePagination startIndex count) ↔
      (∀ q, number startIndex = some q → 1 ≤ q → q.den = 1 ∧ q < 2 ^ 63) ∧
        ∀ q, number count = some q → 0 ≤ q → q.den = 1 ∧ q ≤ maxResults := by
  constructor
  · rintro ⟨⟨⟨m, _, hm⟩, n, hn, hcount⟩, hserved⟩
    have hpage := pageable_of_listsServed hserved
    rw [parsePagination] at hm hcount hpage
    constructor
    · intro q hq hone
      simp only [hq, atLeast_some hone] at hm hpage
      rw [hm, Rat.den_natCast, ← hm]
      exact ⟨rfl, (fits_skip_iff hq hone _).mp hpage.1⟩
    · intro q hq hzero
      simp only [hq, atLeast_some hzero] at hcount
      rw [hcount, Rat.den_natCast]
      exact ⟨rfl, by exact_mod_cast hn⟩
  · rintro ⟨hstart, hcount⟩
    obtain ⟨n, hn, hmax⟩ : ∃ n : ℕ, atLeast 0 100 (number count) = n ∧ n ≤ maxResults := by
      rcases atLeast_eq 0 100 (number count) with ⟨q, hq, hzero, heq⟩ | ⟨_, heq⟩
      · obtain ⟨hden, hle⟩ := hcount q hq hzero
        obtain ⟨n, rfl⟩ := exists_nat_eq hzero hden
        exact ⟨n, heq, by exact_mod_cast hle⟩
      · exact ⟨100, heq, by decide⟩
    have hlt : n < 2 ^ 63 := lt_of_le_of_lt hmax (by decide)
    have hfits : FitsInt64 n := by
      change (n : ℚ) < 2 ^ 63
      exact_mod_cast hlt
    rw [parsePagination, hn]
    rcases atLeast_eq 1 1 (number startIndex) with ⟨q, hq, hone, heq⟩ | ⟨_, heq⟩
    · obtain ⟨hden, hsmall⟩ := hstart q hq hone
      have hskip := (fits_skip_iff hq hone n).mpr hsmall
      obtain ⟨m, rfl⟩ := exists_nat_eq (zero_le_one.trans hone) hden
      rw [heq]
      exact ⟨⟨⟨m, by exact_mod_cast hone, rfl⟩, n, hmax, rfl⟩,
        listsServed_of_pageable ⟨hskip, hfits⟩ rfl hmax⟩
    · rw [heq]
      exact ⟨⟨⟨1, le_refl 1, Nat.cast_one.symm⟩, n, hmax, rfl⟩,
        listsServed_of_pageable (pageable_first hlt) rfl hmax⟩

end Windows

section Excesses

theorem den_ne_one_of_half {q : ℚ} {n : ℤ} (h : 2 * q = 2 * n + 1) : q.den ≠ 1 := by
  intro hden
  rw [← Rat.coe_int_num_of_den_eq_one hden] at h
  have hint : 2 * q.num = 2 * n + 1 := by exact_mod_cast h
  omega

theorem number_three_halves : number (some "1.5") = some (3 / 2) := by
  have hnumeral : numeral (trim "1.5".toList) = some (3 / 2) := by
    have htrim : trim "1.5".toList = ['1', '.', '5'] := by decide
    have hdigits : Nat.ofDigitChars 10 ['1', '5'] 0 = 15 := by decide
    rw [htrim]
    simp [numeral, sign, decimal, fraction, exponent, hdigits]
    norm_num
  have hlt : |(3 / 2 : ℚ)| < infinity := by
    have hlarge : ((2 ^ 64 : ℕ) : ℚ) < infinity := by exact_mod_cast two_pow_lt_infinity
    exact lt_trans (by norm_num [abs_of_pos]) hlarge
  have hdouble : nearest (3 / 2) = 3 / 2 := by
    have hbit : lastBit (3 / 2) ≤ -1 := by
      apply lastBit_le_neg_one <;> norm_num [abs_of_pos]
    exact nearest_eq_self (n := 3) (k := -1) (by norm_num) hbit
  simp only [number, hnumeral, Option.filter_some, hlt, decide_true, if_true, Option.map_some,
    hdouble]

/-- A fraction is taken for a start index, a start index beyond 2 ^ 63 is
refused by the database, and a page of a thousand is asked for. -/
theorem unadvertised_windows :
    (parsePagination (some "1.5") none).startIndex = 3 / 2 ∧
      ¬Servable (parsePagination (some "1.5") none) ∧
      (∀ (env : Env) (ticks : ℕ → Tick) (s : Store) (filter : Option String),
        serve env ticks (.listUsers filter (parsePagination (some "10000000000000000000") none)) s =
          (.error (.prisma .other), s)) ∧
      ¬Servable (parsePagination none (some "1000")) := by
  have hhalf : (parsePagination (some "1.5") none).startIndex = 3 / 2 := by
    rw [parsePagination, number_three_halves, atLeast_some (by norm_num)]
  have hcount : (parsePagination none (some "1000")).count = (1000 : ℕ) := by
    have htext : toString 1000 = "1000" := by decide
    have hlarge := two_pow_lt_infinity
    rw [parsePagination, ← htext, number_toString, if_pos (by omega), nearest_natCast (by omega),
      atLeast_some (by norm_num)]
  refine ⟨hhalf, ?_, ?_, ?_⟩
  · intro h
    obtain ⟨n, _, hn⟩ := h.startIndex
    have hden := congrArg Rat.den (hn.symm.trans hhalf)
    rw [Rat.den_natCast] at hden
    exact den_ne_one_of_half (n := 1) (by norm_num) hden.symm
  · intro env ticks s filter
    have htext : toString 10000000000000000000 = "10000000000000000000" := by decide
    have hnumber : number (some "10000000000000000000") =
        some (nearest (10000000000000000000 : ℕ)) := by
      have hlarge := two_pow_lt_infinity
      rw [← htext, number_toString, if_pos (by omega)]
    have hbeyond : (2 ^ 63 : ℚ) ≤ nearest (10000000000000000000 : ℕ) := by
      rw [← nearest_before]
      exact nearest_mono (by norm_num) (by norm_num)
    have hone : 1 ≤ nearest (10000000000000000000 : ℕ) := le_trans (by norm_num) hbeyond
    refine (serve_list_refused env ticks s (fun hpage => ?_) filter).1
    rw [parsePagination, hnumber, atLeast_some hone] at hpage
    exact absurd ((fits_skip_iff hnumber hone _).mp hpage.1) (not_lt.mpr hbeyond)
  · intro h
    obtain ⟨n, hle, hn⟩ := h.count
    rw [hcount] at hn
    have hsame : 1000 = n := by exact_mod_cast hn
    rw [← hsame] at hle
    exact absurd hle (by decide)

end Excesses

end OktaScim.AdvertisedPaging
