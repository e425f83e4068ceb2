import Mathlib.Algebra.Order.Field.Rat
import Mathlib.Data.Int.Log
import Mathlib.Data.Rat.Floor
import Mathlib.Tactic.Linarith
import Mathlib.Tactic.NormNum

/-!
Rounding to double precision: to the nearest multiple of the last of the 53
bits, and to an even multiple where two are equally near. Only the precision
and the smallest unit are bounded here, not the size.
-/
namespace OktaScim.Doubles

def roundEven (q : ℚ) : ℤ :=
  if Int.fract q < 1 / 2 then ⌊q⌋
  else if 1 / 2 < Int.fract q then ⌊q⌋ + 1
  else if Even ⌊q⌋ then ⌊q⌋
  else ⌊q⌋ + 1

/-- The exponent of the last bit of a double of this size. -/
def lastBit (q : ℚ) : ℤ := max (Int.log 2 |q| - 52) (-1074)

def nearest (q : ℚ) : ℚ := roundEven (q / 2 ^ lastBit q) * 2 ^ lastBit q

/-- `a - b` on doubles, where the result is finite. -/
def sub (a b : ℚ) : ℚ := nearest (a - b)

section Integers

theorem roundEven_intCast (n : ℤ) : roundEven n = n := by
  have hfract : Int.fract (n : ℚ) < 1 / 2 := by
    rw [Int.fract_intCast]
    exact one_half_pos
  rw [roundEven, if_pos hfract, Int.floor_intCast]

theorem floor_le_roundEven (q : ℚ) : ⌊q⌋ ≤ roundEven q := by
  unfold roundEven
  split_ifs <;> omega

theorem roundEven_le_floor_add_one (q : ℚ) : roundEven q ≤ ⌊q⌋ + 1 := by
  unfold roundEven
  split_ifs <;> omega

theorem roundEven_mono {q r : ℚ} (h : q ≤ r) : roundEven q ≤ roundEven r := by
  have hfloor : ⌊q⌋ ≤ ⌊r⌋ := Int.floor_mono h
  by_cases hsame : ⌊q⌋ = ⌊r⌋
  · have hfract : Int.fract q ≤ Int.fract r := by
      unfold Int.fract
      rw [hsame]
      exact sub_le_sub_right h _
    by_cases hlow : Int.fract r < 1 / 2
    · rw [roundEven, if_pos (lt_of_le_of_lt hfract hlow), roundEven, if_pos hlow, hsame]
    · by_cases hhigh : 1 / 2 < Int.fract r
      · have hr : roundEven r = ⌊r⌋ + 1 := by rw [roundEven, if_neg hlow, if_pos hhigh]
        have hq := roundEven_le_floor_add_one q
        omega
      · have hq : ¬1 / 2 < Int.fract q := fun hq => hhigh (lt_of_lt_of_le hq hfract)
        unfold roundEven
        rw [if_neg hlow, if_neg hhigh, if_neg hq, hsame]
        split_ifs <;> omega
  · have hq := roundEven_le_floor_add_one q
    have hr := floor_le_roundEven r
    omega

theorem le_roundEven {n : ℤ} {q : ℚ} (h : (n : ℚ) ≤ q) : n ≤ roundEven q := by
  have hmono := roundEven_mono h
  rwa [roundEven_intCast] at hmono

theorem roundEven_le {n : ℤ} {q : ℚ} (h : q ≤ n) : roundEven q ≤ n := by
  have hmono := roundEven_mono h
  rwa [roundEven_intCast] at hmono

end Integers

section Sizes

/-- A number whose last bit is within the precision is a double. -/
theorem nearest_eq_self {q : ℚ} {n k : ℤ} (hq : q = n * 2 ^ k) (hk : lastBit q ≤ k) :
    nearest q = q := by
  obtain ⟨j, hj⟩ := Int.le.dest hk
  have hunit : (2 : ℚ) ^ lastBit q ≠ 0 := zpow_ne_zero _ two_ne_zero
  have hscaled : q / 2 ^ lastBit q = ((n * 2 ^ j : ℤ) : ℚ) := by
    have hpow : (2 : ℚ) ^ k = 2 ^ lastBit q * 2 ^ j := by
      rw [← hj, zpow_add₀ two_ne_zero, zpow_natCast]
    rw [div_eq_iff hunit]
    conv_lhs => rw [hq, hpow]
    push_cast
    ring
  rw [nearest, hscaled, roundEven_intCast, ← hscaled, div_mul_cancel₀ _ hunit]

theorem nearest_zero : nearest 0 = 0 := by
  unfold nearest
  rw [zero_div, ← Int.cast_zero, roundEven_intCast, Int.cast_zero, zero_mul]

theorem zero_le_roundEven {q : ℚ} (hq : 0 ≤ q) (k : ℤ) : 0 ≤ roundEven (q / 2 ^ k) := by
  apply le_roundEven
  rw [Int.cast_zero]
  exact div_nonneg hq (zpow_pos two_pos k).le

theorem nearest_nonneg {q : ℚ} (hq : 0 ≤ q) : 0 ≤ nearest q := by
  have hround := zero_le_roundEven hq (lastBit q)
  exact mul_nonneg (by exact_mod_cast hround) (zpow_pos two_pos _).le

theorem nearest_nonpos {q : ℚ} (hq : q ≤ 0) : nearest q ≤ 0 := by
  have hround : roundEven (q / 2 ^ lastBit q) ≤ 0 := by
    apply roundEven_le
    rw [Int.cast_zero]
    exact div_nonpos_of_nonpos_of_nonneg hq (zpow_pos two_pos _).le
  exact mul_nonpos_of_nonpos_of_nonneg (by exact_mod_cast hround) (zpow_pos two_pos _).le

/-- Below 2 ^ 52 the last bit is one of a fraction. -/
theorem lastBit_le_neg_one {q : ℚ} (hpos : 0 < |q|) (h : |q| < 2 ^ (52 : ℤ)) :
    lastBit q ≤ -1 := by
  have hlog : Int.log 2 |q| < 52 :=
    (Int.lt_zpow_iff_log_lt one_lt_two hpos).mp (by exact_mod_cast h)
  unfold lastBit
  omega

theorem lastBit_mono {q r : ℚ} (hq : 0 < q) (h : q ≤ r) : lastBit q ≤ lastBit r := by
  have hlog : Int.log 2 |q| ≤ Int.log 2 |r| := by
    rw [abs_of_pos hq, abs_of_pos (lt_of_lt_of_le hq h)]
    exact Int.log_mono_right hq h
  unfold lastBit
  omega

/-- Where the last bits differ, a power of two lies between. -/
theorem nearest_mono {q r : ℚ} (hq : 0 ≤ q) (h : q ≤ r) : nearest q ≤ nearest r := by
  rcases hq.eq_or_lt with rfl | hpos
  · rw [nearest_zero]
    exact nearest_nonneg h
  have hunit : ∀ k : ℤ, (0 : ℚ) < 2 ^ k := fun k => zpow_pos two_pos k
  rcases (lastBit_mono hpos h).eq_or_lt with hsame | hless
  · unfold nearest
    rw [hsame]
    have hround := roundEven_mono (div_le_div_of_nonneg_right h (hunit (lastBit r)).le)
    exact mul_le_mul_of_nonneg_right (by exact_mod_cast hround) (hunit _).le
  · have hrpos : 0 < r := lt_of_lt_of_le hpos h
    obtain ⟨j, hj⟩ : ∃ j : ℤ, j = Int.log 2 r := ⟨_, rfl⟩
    have hbit : lastBit r = j - 52 := by
      unfold lastBit at hless ⊢
      rw [abs_of_pos hrpos, ← hj] at hless ⊢
      omega
    have hlow : lastBit q < j - 52 := by rwa [hbit] at hless
    have hqj : q ≤ 2 ^ j := by
      have hlog : Int.log 2 q < j := by
        unfold lastBit at hlow
        rw [abs_of_pos hpos] at hlow
        omega
      exact_mod_cast ((Int.lt_zpow_iff_log_lt one_lt_two hpos).mpr hlog).le
    have hjr : (2 : ℚ) ^ j ≤ r := by
      rw [hj]
      exact_mod_cast Int.zpow_log_le_self one_lt_two hrpos
    -- the power of two is a whole number of either unit
    have hmultiple : ∀ k ≤ j, ∃ n : ℤ, (2 : ℚ) ^ j = n * 2 ^ k := by
      intro k hk
      obtain ⟨i, hi⟩ := Int.le.dest hk
      refine ⟨2 ^ i, ?_⟩
      rw [← hi, zpow_add₀ two_ne_zero, zpow_natCast]
      push_cast
      ring
    have hbelow : nearest q ≤ 2 ^ j := by
      obtain ⟨n, hn⟩ := hmultiple (lastBit q) (by omega)
      have hround : roundEven (q / 2 ^ lastBit q) ≤ n :=
        roundEven_le ((div_le_iff₀ (hunit _)).mpr (by rwa [← hn]))
      rw [nearest, hn]
      exact mul_le_mul_of_nonneg_right (by exact_mod_cast hround) (hunit _).le
    have habove : 2 ^ j ≤ nearest r := by
      obtain ⟨n, hn⟩ := hmultiple (lastBit r) (by omega)
      have hround : n ≤ roundEven (r / 2 ^ lastBit r) :=
        le_roundEven ((le_div_iff₀ (hunit _)).mpr (by rwa [← hn]))
      rw [nearest, hn]
      exact mul_le_mul_of_nonneg_right (by exact_mod_cast hround) (hunit _).le
    exact hbelow.trans habove

end Sizes

section Doubles

/-- A number of the precision is a double, one whose last bit is carried over included. -/
theorem nearest_of_bits {z : ℕ} {e : ℤ} (hz : z ≤ 2 ^ 53) (he : -1074 ≤ e) :
    nearest ((z : ℚ) * 2 ^ e) = z * 2 ^ e := by
  have hunit : (0 : ℚ) < 2 ^ e := zpow_pos two_pos e
  rcases Nat.eq_zero_or_pos z with rfl | hpos
  · simp [nearest_zero]
  have hcast : (0 : ℚ) < (z : ℚ) * 2 ^ e := mul_pos (by exact_mod_cast hpos) hunit
  rcases hz.lt_or_eq with hlt | rfl
  · refine nearest_eq_self (n := z) (k := e) (by simp) ?_
    have hlog : Int.log 2 |(z : ℚ) * 2 ^ e| < 53 + e := by
      refine (Int.lt_zpow_iff_log_lt one_lt_two (abs_pos.mpr hcast.ne')).mp ?_
      rw [abs_of_pos hcast, Nat.cast_ofNat, zpow_add₀ two_ne_zero]
      exact mul_lt_mul_of_pos_right (by exact_mod_cast hlt) hunit
    unfold lastBit
    omega
  · have hpow : ((2 ^ 53 : ℕ) : ℚ) * 2 ^ e = 2 ^ (53 + e) := by
      rw [zpow_add₀ two_ne_zero]
      norm_num
    rw [hpow]
    refine nearest_eq_self (n := 1) (k := 53 + e) (by simp) ?_
    have hlog : Int.log 2 |(2 : ℚ) ^ (53 + e)| = 53 + e := by
      rw [abs_of_pos (zpow_pos two_pos _)]
      exact_mod_cast Int.log_zpow one_lt_two (R := ℚ) (53 + e)
    unfold lastBit
    omega

theorem nearest_nearest {q : ℚ} (hq : 0 ≤ q) : nearest (nearest q) = nearest q := by
  obtain ⟨z, hz⟩ := Int.eq_ofNat_of_zero_le (zero_le_roundEven hq (lastBit q))
  have hbits : nearest q = (z : ℚ) * 2 ^ lastBit q := by
    rw [nearest, hz]
    rfl
  rw [hbits]
  refine nearest_of_bits ?_ (le_max_right ..)
  have hround : roundEven (q / 2 ^ lastBit q) ≤ (2 ^ 53 : ℕ) := by
    apply roundEven_le
    rw [div_le_iff₀ (zpow_pos two_pos _)]
    rcases hq.eq_or_lt with rfl | hpos
    · exact mul_nonneg (by simp) (zpow_pos two_pos _).le
    have hlog : q < (2 : ℚ) ^ (Int.log 2 q + 1) := by
      exact_mod_cast Int.lt_zpow_succ_log_self one_lt_two q
    have hle : Int.log 2 q + 1 ≤ 53 + lastBit q := by
      unfold lastBit
      rw [abs_of_pos hpos]
      omega
    calc q ≤ (2 : ℚ) ^ (53 + lastBit q) :=
          hlog.le.trans (zpow_le_zpow_right₀ one_le_two hle)
      _ = ((2 ^ 53 : ℕ) : ℤ) * 2 ^ lastBit q := by
          rw [zpow_add₀ two_ne_zero]
          norm_num
  rw [hz] at hround
  exact_mod_cast hround

/-- The number before 2 ^ 63 is too near to it to be told apart. -/
theorem nearest_before : nearest (2 ^ 63 - 1) = 2 ^ 63 := by
  have hlog : Int.log 2 |(2 : ℚ) ^ 63 - 1| = 62 := by
    have hnat : |(2 : ℚ) ^ 63 - 1| = ((2 ^ 63 - 1 : ℕ) : ℚ) := by norm_num
    rw [hnat, Int.log_natCast]
    decide
  have hbit : lastBit (2 ^ 63 - 1) = 10 := by
    rw [lastBit, hlog]
    decide
  have hfloor : ⌊((2 : ℚ) ^ 63 - 1) / 2 ^ (10 : ℤ)⌋ = 2 ^ 53 - 1 := by
    rw [Int.floor_eq_iff]
    norm_num
  have hfract : Int.fract (((2 : ℚ) ^ 63 - 1) / 2 ^ (10 : ℤ)) = 1023 / 1024 := by
    unfold Int.fract
    rw [hfloor]
    norm_num
  unfold nearest
  rw [hbit, roundEven, hfract, hfloor]
  norm_num

/-- A double is below 2 ^ 63 exactly when the double before its predecessor is. -/
theorem sub_one_lt_iff {q : ℚ} (hone : 1 ≤ q) (hq : nearest q = q) :
    sub q 1 < 2 ^ 63 ↔ q < 2 ^ 63 := by
  unfold sub
  constructor
  · intro h
    by_contra hlarge
    have hmono := nearest_mono (q := 2 ^ 63 - 1) (r := q - 1) (by norm_num) (by linarith)
    rw [nearest_before] at hmono
    linarith
  · intro h
    have hmono := nearest_mono (q := q - 1) (r := q) (by linarith) (by linarith)
    rw [hq] at hmono
    linarith

end Doubles

section WholeNumbers

theorem lastBit_natCast_nonpos {n : ℕ} (h : n < 2 ^ 53) : lastBit n ≤ 0 := by
  rcases Nat.eq_zero_or_pos n with rfl | hpos
  · simp [lastBit]
  · have habs : |(n : ℚ)| = n := abs_of_nonneg (by positivity)
    have hlog : Int.log 2 |(n : ℚ)| < 53 := by
      refine (Int.lt_zpow_iff_log_lt one_lt_two (by rw [habs]; exact_mod_cast hpos)).mp ?_
      rw [habs]
      exact_mod_cast h
    unfold lastBit
    omega

/-- Whole numbers of 53 bits are doubles. -/
theorem nearest_natCast {n : ℕ} (h : n ≤ 2 ^ 53) : nearest n = n := by
  rcases h.lt_or_eq with hlt | rfl
  · exact nearest_eq_self (n := n) (k := 0) (by simp) (lastBit_natCast_nonpos hlt)
  · refine nearest_eq_self (n := 1) (k := 53) (by norm_num) ?_
    have hlog : Int.log 2 |((2 ^ 53 : ℕ) : ℚ)| = 53 := by
      have hpow : |((2 ^ 53 : ℕ) : ℚ)| = (2 : ℕ) ^ (53 : ℤ) := by norm_num
      rw [hpow, Int.log_zpow one_lt_two]
    rw [lastBit, hlog]
    decide

theorem sub_one_natCast {n : ℕ} (hpos : 1 ≤ n) (h : n ≤ 2 ^ 53) : sub n 1 = (n - 1 : ℕ) := by
  have hcast : ((n : ℚ) - 1) = ((n - 1 : ℕ) : ℚ) := by rw [Nat.cast_sub hpos, Nat.cast_one]
  rw [sub, hcast, nearest_natCast (by omega)]

end WholeNumbers

end OktaScim.Doubles
