import Mathlib.Data.List.Sort
import Mathlib.Data.List.TakeWhile
import Mathlib.Order.Defs.LinearOrder

/-!
Lists sorted by a key that need not tell their entries apart. Two such sorts of
the same entries may order entries of one key differently. Cut at a position
that separates keys, they agree on what stands in front of it; cut between
entries of one key, they need not. Pages taken from different sorts of the same
entries put these together exactly when no page ends between such entries.
-/
namespace OktaScim.TiedSorts

variable {α κ : Type} [LinearOrder κ] (key : α → κ)

/-- The number of entries with a smaller key. -/
def earlier (rows : List α) (x : α) : ℕ := rows.countP (fun y => key y < key x)

/-- The number of entries with the same key. -/
def tied (rows : List α) (x : α) : ℕ := rows.countP (fun y => key y = key x)

/-- In a sorted list, entries of one key stand on both sides of the position. -/
def TieCut (rows : List α) (b : ℕ) : Prop :=
  ∃ x ∈ rows, earlier key rows x < b ∧ b < earlier key rows x + tied key rows x

def SortedBy (l : List α) : Prop := l.Pairwise (fun x y => key x ≤ key y)

variable {key}

section Positions

theorem earlier_perm {l₁ l₂ : List α} (h : l₁.Perm l₂) (x : α) :
    earlier key l₁ x = earlier key l₂ x := h.countP_eq _

theorem tied_perm {l₁ l₂ : List α} (h : l₁.Perm l₂) (x : α) :
    tied key l₁ x = tied key l₂ x := h.countP_eq _

theorem tieCut_perm {l₁ l₂ : List α} (h : l₁.Perm l₂) (b : ℕ) :
    TieCut key l₁ b ↔ TieCut key l₂ b := by
  simp only [TieCut, earlier_perm h, tied_perm h, h.mem_iff]

theorem earlier_add_tied (rows : List α) (x : α) :
    earlier key rows x + tied key rows x = rows.countP (fun y => key y ≤ key x) := by
  unfold earlier tied
  induction rows with
  | nil => rfl
  | cons y rows ih =>
    simp only [List.countP_cons, decide_eq_true_eq]
    rcases lt_trichotomy (key y) (key x) with h | h | h
    · rw [if_pos h, if_neg h.ne, if_pos h.le]
      omega
    · rw [if_neg h.not_lt, if_pos h, if_pos h.le]
      omega
    · rw [if_neg h.not_gt, if_neg h.ne', if_neg h.not_ge]
      omega

theorem not_tieCut_zero (rows : List α) : ¬TieCut key rows 0 := by
  rintro ⟨x, _, hbefore, _⟩
  omega

theorem not_tieCut_of_le {rows : List α} {b : ℕ} (h : rows.length ≤ b) : ¬TieCut key rows b := by
  rintro ⟨x, _, _, hafter⟩
  rw [earlier_add_tied] at hafter
  have hlen := List.countP_le_length (p := fun y => decide (key y ≤ key x)) (l := rows)
  omega

/-- Where no two entries have one key, no ties can be cut. -/
theorem not_tieCut_of_nodup {rows : List α} (h : (rows.map key).Nodup) (b : ℕ) :
    ¬TieCut key rows b := by
  rintro ⟨x, _, hbefore, hafter⟩
  have hcount : tied key rows x = (rows.map key).count (key x) := by
    rw [tied, List.count, List.countP_map]
    exact List.countP_congr fun y _ => by simp
  have hone := List.nodup_iff_count_le_one.mp h (key x)
  omega

/-- An entry of a sorted list stands within the block of its key. -/
theorem position_of_entry {pre post : List α} {x : α} (h : SortedBy key (pre ++ x :: post)) :
    earlier key (pre ++ x :: post) x ≤ pre.length ∧
      pre.length < earlier key (pre ++ x :: post) x + tied key (pre ++ x :: post) x := by
  unfold SortedBy at h
  obtain ⟨_, hpost, hacross⟩ := List.pairwise_append.mp h
  have hbehind := (List.pairwise_cons.mp hpost).1
  constructor
  · have hrest : (x :: post).countP (fun y => key y < key x) = 0 := by
      rw [List.countP_eq_zero]
      intro y hy
      rcases List.mem_cons.mp hy with rfl | hy
      · simp
      · simpa using hbehind y hy
    unfold earlier
    rw [List.countP_append, hrest]
    exact List.countP_le_length
  · have hfront : pre.countP (fun y => key y ≤ key x) = pre.length := by
      rw [List.countP_eq_length]
      intro y hy
      simpa using hacross y hy x (List.mem_cons_self ..)
    rw [earlier_add_tied, List.countP_append, hfront, List.countP_cons]
    simp

/-- In front of a position that cuts no ties stand the entries whose whole
block fits there. -/
theorem take_eq_filter {l : List α} {b : ℕ} (hl : SortedBy key l) (hcut : ¬TieCut key l b) :
    l.take b = l.filter (fun x => earlier key l x + tied key l x ≤ b) := by
  have hfront : ∀ x ∈ l.take b, earlier key l x + tied key l x ≤ b := by
    intro x hx
    obtain ⟨pre, post, hsplit⟩ := List.append_of_mem hx
    have hlen : pre.length < b := by
      have htake := congrArg List.length hsplit
      simp only [List.length_take, List.length_append, List.length_cons] at htake
      omega
    have hwhole : l = pre ++ x :: (post ++ l.drop b) := by
      rw [← List.cons_append, ← List.append_assoc, ← hsplit, List.take_append_drop]
    have hpos := position_of_entry (hwhole ▸ hl)
    rw [← hwhole] at hpos
    by_contra hover
    exact hcut ⟨x, List.mem_of_mem_take hx, by omega, by omega⟩
  have hbehind : ∀ x ∈ l.drop b, ¬earlier key l x + tied key l x ≤ b := by
    intro x hx
    obtain ⟨pre, post, hsplit⟩ := List.append_of_mem hx
    have hwhole : l = (l.take b ++ pre) ++ x :: post := by
      rw [List.append_assoc, ← hsplit, List.take_append_drop]
    have hpos := position_of_entry (hwhole ▸ hl)
    rw [← hwhole] at hpos
    have hlen : b ≤ (l.take b).length := by
      have hdrop := congrArg List.length hsplit
      simp only [List.length_drop, List.length_append, List.length_cons] at hdrop
      rw [List.length_take]
      omega
    rw [List.length_append] at hpos
    omega
  conv_rhs => rw [← List.take_append_drop b l, List.filter_append]
  rw [List.take_append_drop, List.filter_eq_self.mpr, List.filter_eq_nil_iff.mpr, List.append_nil]
  · intro x hx
    simpa using hbehind x hx
  · intro x hx
    simpa using hfront x hx

theorem take_perm {l₁ l₂ : List α} {b : ℕ} (hperm : l₁.Perm l₂) (h₁ : SortedBy key l₁)
    (h₂ : SortedBy key l₂) (hcut : ¬TieCut key l₁ b) : (l₁.take b).Perm (l₂.take b) := by
  rw [take_eq_filter h₁ hcut, take_eq_filter h₂ ((tieCut_perm hperm b).not.mp hcut)]
  simp only [earlier_perm hperm, tied_perm hperm]
  exact hperm.filter _

/-- Where ties are cut, the two entries beside the cut have one key. -/
theorem neighbours_of_tieCut {l : List α} {b : ℕ} (hl : SortedBy key l) (hcut : TieCut key l b) :
    ∃ pre x y post, l = pre ++ x :: y :: post ∧ pre.length + 1 = b ∧ key x = key y := by
  obtain ⟨z, _, hbefore, hafter⟩ := hcut
  have hcount : b < l.length := by
    rw [earlier_add_tied] at hafter
    exact Nat.lt_of_lt_of_le hafter List.countP_le_length
  obtain ⟨c, rfl⟩ : ∃ c, b = c + 1 := ⟨b - 1, by omega⟩
  have hsame : ∀ i (hi : i < l.length), earlier key l z ≤ i →
      i < earlier key l z + tied key l z → key l[i] = key z := by
    intro i hi hlow hhigh
    have hsplit : l = l.take i ++ l[i] :: l.drop (i + 1) := by
      rw [← List.drop_eq_getElem_cons hi, List.take_append_drop]
    have hpos := position_of_entry (hsplit ▸ hl)
    rw [← hsplit, List.length_take, Nat.min_eq_left (by omega)] at hpos
    rcases lt_trichotomy (key l[i]) (key z) with hlt | heq | hgt
    · have hmono : earlier key l l[i] + tied key l l[i] ≤ earlier key l z := by
        rw [earlier_add_tied]
        apply List.countP_mono_left
        intro y _ hy
        simp only [decide_eq_true_eq] at hy ⊢
        exact hy.trans_lt hlt
      omega
    · exact heq
    · have hmono : earlier key l z + tied key l z ≤ earlier key l l[i] := by
        rw [earlier_add_tied]
        apply List.countP_mono_left
        intro y _ hy
        simp only [decide_eq_true_eq] at hy ⊢
        exact hy.trans_lt hgt
      omega
  refine ⟨l.take c, l[c], l[c + 1], l.drop (c + 2), ?_, ?_, ?_⟩
  · rw [← List.drop_eq_getElem_cons hcount, ← List.drop_eq_getElem_cons (by omega),
      List.take_append_drop]
  · rw [List.length_take]
    omega
  · rw [hsame c (by omega) (by omega) (by omega), hsame (c + 1) hcount (by omega) (by omega)]

end Positions

section Pages

/-- The first `m` pages of size `c`, each from a sort of its own. -/
def pages (sorts : ℕ → List α) (c m : ℕ) : List α :=
  (List.range m).flatMap fun k => ((sorts k).drop (k * c)).take c

theorem pages_succ (sorts : ℕ → List α) (c m : ℕ) :
    pages sorts c (m + 1) = pages sorts c m ++ ((sorts m).drop (m * c)).take c := by
  simp [pages, List.range_succ]

/-- Pages whose ends cut no ties are together the front of any sort. -/
theorem pages_perm {rows : List α} {sorts : ℕ → List α} {c : ℕ}
    (hsorts : ∀ k, (sorts k).Perm rows ∧ SortedBy key (sorts k))
    (hcut : ∀ k, ¬TieCut key rows (k * c)) (m : ℕ) :
    (pages sorts c m).Perm ((sorts m).take (m * c)) := by
  induction m with
  | zero => simp [pages]
  | succ m ih =>
    have hnext : (sorts m).take ((m + 1) * c) =
        (sorts m).take (m * c) ++ ((sorts m).drop (m * c)).take c := by
      rw [Nat.succ_mul, List.take_add]
    have hsame : (sorts m).Perm (sorts (m + 1)) :=
      (hsorts m).1.trans (hsorts (m + 1)).1.symm
    have hclean : ¬TieCut key (sorts m) ((m + 1) * c) :=
      (tieCut_perm (hsorts m).1 _).not.mpr (hcut (m + 1))
    rw [pages_succ]
    refine (ih.append_right _).trans ?_
    rw [← hnext]
    exact take_perm hsame (hsorts m).2 (hsorts (m + 1)).2 hclean

theorem mem_slice {pre post : List α} {x : α} {a c : ℕ} (hstart : a ≤ pre.length)
    (hstop : pre.length < a + c) : x ∈ ((pre ++ x :: post).drop a).take c := by
  obtain ⟨n, hn⟩ : ∃ n, c - (pre.drop a).length = n + 1 := by
    rw [List.length_drop]
    exact ⟨c - (pre.length - a) - 1, by omega⟩
  rw [List.drop_append_of_le_length hstart, List.take_append, hn, List.take_succ_cons]
  simp

/-- A page that ends between two entries of one key: with the two exchanged in
the next page's sort, one of them is seen twice. -/
theorem exists_repeating_pages {rows l : List α} {k c : ℕ} (hc : 0 < c) (hl : l.Perm rows)
    (hsorted : SortedBy key l) (hcut : TieCut key rows (k * c)) :
    ∃ sorts : ℕ → List α, (∀ j, (sorts j).Perm rows ∧ SortedBy key (sorts j)) ∧
      ∀ m, k < m → ¬(pages sorts c m).Nodup := by
  obtain ⟨pre, x, y, post, rfl, hb, hkey⟩ :=
    neighbours_of_tieCut hsorted ((tieCut_perm hl _).mpr hcut)
  have hswap : (pre ++ y :: x :: post).Perm rows :=
    (List.Perm.append_left pre (List.Perm.swap x y post)).trans hl
  have hswapped : SortedBy key (pre ++ y :: x :: post) := by
    unfold SortedBy at hsorted ⊢
    simp only [List.pairwise_append, List.pairwise_cons, List.mem_cons, forall_eq_or_imp]
      at hsorted ⊢
    obtain ⟨hpre, ⟨⟨_, hx⟩, hy, hpost⟩, hacross⟩ := hsorted
    refine ⟨hpre, ⟨⟨hkey.ge, hy⟩, hx, hpost⟩, fun a ha => ?_⟩
    obtain ⟨hax, hay, hrest⟩ := hacross a ha
    exact ⟨hay, hax, hrest⟩
  obtain ⟨j, rfl⟩ : ∃ j, k = j + 1 := by
    cases k with
    | zero => omega
    | succ j => exact ⟨j, rfl⟩
  rw [Nat.succ_mul] at hb
  refine ⟨fun i => if i = j + 1 then pre ++ y :: x :: post else pre ++ x :: y :: post, ?_, ?_⟩
  · intro i
    dsimp only
    split
    · exact ⟨hswap, hswapped⟩
    · exact ⟨hl, hsorted⟩
  · intro m hm hnodup
    have hdisjoint := (List.nodup_flatMap.mp hnodup).2
    have hpair := (List.pairwise_iff_getElem.mp hdisjoint) j (j + 1)
      (by simp only [List.length_range]; omega) (by simp only [List.length_range]; omega) (by omega)
    simp only [List.getElem_range] at hpair
    have hlast : x ∈ ((pre ++ x :: y :: post).drop (j * c)).take c :=
      mem_slice (by omega) (by omega)
    have hfirst : x ∈ (((pre ++ [y]) ++ x :: post).drop ((j + 1) * c)).take c := by
      have hlen : (pre ++ [y]).length = (j + 1) * c := by
        rw [List.length_append, List.length_singleton, hb, Nat.succ_mul]
      exact mem_slice (by omega) (by omega)
    rw [List.append_assoc, List.singleton_append] at hfirst
    simp only [Function.onFun, if_neg (Nat.ne_of_lt (Nat.lt_succ_self j)), if_true] at hpair
    exact hpair hlast hfirst

end Pages

section Windows

variable {n c m : ℕ} {starts : ℕ → ℕ}

/-- Windows of one size that cover the positions below `n` once each follow one
another, if none but the first starts in front of an earlier one. -/
theorem aligned_of_tiling (hc : 0 < c) (hzero : starts 0 = 0)
    (hmono : ∀ j k, j ≤ k → starts j ≤ starts k ∨ starts k = 0)
    (hcover : ∀ i < n, ∃ k < m, starts k ≤ i ∧ i < starts k + c)
    (hapart : ∀ j k i, j < k → k < m → i < n → starts j ≤ i → i < starts j + c →
      starts k ≤ i → ¬i < starts k + c) :
    (∀ k < m, min (starts k) n = min (k * c) n) ∧ n ≤ m * c := by
  have hstarts : ∀ k < m, min (starts k) n = min (k * c) n := by
    intro k
    induction k using Nat.strong_induction_on with
    | _ k ih =>
      intro hk
      have hbefore : ∀ j < k, j * c < n → starts j = j * c := by
        intro j hj hlt
        have hj' := ih j hj (by omega)
        omega
      rcases lt_trichotomy (min (starts k) n) (min (k * c) n) with hlt | heq | hgt
      · -- the window starts within one before it
        have hdiv : starts k / c < k := Nat.div_lt_of_lt_mul (by rw [Nat.mul_comm]; omega)
        have hlow := Nat.div_mul_le_self (starts k) c
        have hhigh := Nat.lt_div_mul_add (a := starts k) hc
        have hsame := hbefore _ hdiv (by omega)
        exact absurd (by omega : starts k < starts k + c) (hapart _ k (starts k) hdiv hk (by omega)
          (by omega) (by omega) (le_refl _))
      · exact heq
      · -- no window covers the position behind the last one
        obtain ⟨i, hi, hlow, hhigh⟩ := hcover (k * c) (by omega)
        rcases Nat.lt_or_ge i k with hik | hik
        · have hmul := Nat.mul_le_mul_right c hik
          rw [Nat.succ_mul] at hmul
          have hsame := hbefore i hik (by omega)
          omega
        · rcases hmono k i hik with hle | hagain
          · omega
          · have hposi : 0 < i := by
              rcases Nat.eq_zero_or_pos k with rfl | hpos
              · rw [hzero] at hgt
                omega
              · omega
            exact absurd (by omega : 0 < starts i + c) (hapart 0 i 0 hposi hi (by omega)
              (by omega) (by omega) (by omega))
  refine ⟨hstarts, ?_⟩
  by_contra hover
  obtain ⟨k, hk, hlow, hhigh⟩ := hcover (m * c) (by omega)
  have hmul := Nat.mul_le_mul_right c hk
  rw [Nat.succ_mul] at hmul
  have hsame := hstarts k hk
  omega

/-- In a list without repetitions a window holds the entries at its positions. -/
theorem getElem_mem_window_iff {l : List α} (hl : l.Nodup) {i : ℕ} (hi : i < l.length) (a c : ℕ) :
    l[i] ∈ (l.drop a).take c ↔ a ≤ i ∧ i < a + c := by
  rw [List.mem_take_iff_getElem]
  constructor
  · rintro ⟨j, hj, heq⟩
    rw [List.getElem_drop, hl.getElem_inj_iff] at heq
    omega
  · rintro ⟨hlow, hhigh⟩
    refine ⟨i - a, by rw [List.length_drop]; omega, ?_⟩
    rw [List.getElem_drop, hl.getElem_inj_iff]
    omega

/-- Windows of one list make it up only when they follow one another. -/
theorem aligned_of_windows {l : List α} (hl : l.Nodup) (hc : 0 < c) (hzero : starts 0 = 0)
    (hmono : ∀ j k, j ≤ k → starts j ≤ starts k ∨ starts k = 0)
    (hall : ((List.range m).flatMap fun k => (l.drop (starts k)).take c).Perm l) :
    (∀ k < m, min (starts k) l.length = min (k * c) l.length) ∧ l.length ≤ m * c := by
  refine aligned_of_tiling hc hzero hmono (fun i hi => ?_) fun j k i hjk hk hi hj hj' hki hki' => ?_
  · have hmem := hall.mem_iff.mpr (List.getElem_mem hi)
    obtain ⟨k, hk, hmem⟩ := List.mem_flatMap.mp hmem
    exact ⟨k, List.mem_range.mp hk, (getElem_mem_window_iff hl hi _ _).mp hmem⟩
  · have hdisjoint := (List.nodup_flatMap.mp (hall.nodup_iff.mpr hl)).2
    have hpair := (List.pairwise_iff_getElem.mp hdisjoint) j k
      (by simp only [List.length_range]; omega) (by simpa only [List.length_range] using hk) hjk
    simp only [List.getElem_range] at hpair
    exact hpair ((getElem_mem_window_iff hl hi _ _).mpr ⟨hj, hj'⟩)
      ((getElem_mem_window_iff hl hi _ _).mpr ⟨hki, hki'⟩)

/-- Windows that follow one another are pages. -/
theorem windows_eq_pages {sorts : ℕ → List α} (hlength : ∀ k, (sorts k).length = n)
    (haligned : ∀ k < m, min (starts k) n = min (k * c) n) :
    ((List.range m).flatMap fun k => ((sorts k).drop (starts k)).take c) = pages sorts c m := by
  apply List.flatMap_congr
  intro k hk
  have hsame := haligned k (List.mem_range.mp hk)
  rw [← hlength k] at hsame
  rw [List.drop_eq_drop_iff.mpr hsame]

end Windows

end OktaScim.TiedSorts
