import OktaScim.FixedWidths
import OktaScim.Representations

/-!
Times as they are written in `meta` and in the demo's feeds. Up to the year
9999 the texts of two times compare as the times do, so that a client can
compare `lastModified` texts, and every text stands for one time.
-/
namespace OktaScim.IsoDates

open FixedWidths Representations

section Calendar

def dayOfEra (days : ℕ) : ℕ := (days + 719468) % 146097

def yearOfEra (doe : ℕ) : ℕ := (doe - doe / 1460 + doe / 36524 - doe / 146096) / 365

def dayOfYear (doe : ℕ) : ℕ :=
  doe - (365 * yearOfEra doe + yearOfEra doe / 4 - yearOfEra doe / 100)

/-- Years and months counted from March. -/
def marchYear (days : ℕ) : ℕ := yearOfEra (dayOfEra days) + (days + 719468) / 146097 * 400

def marchMonth (doy : ℕ) : ℕ := (5 * doy + 2) / 153

def dayOfMonth (doy : ℕ) : ℕ := doy - (153 * marchMonth doy + 2) / 5 + 1

/-- The century of a day within its 400 years is that of its year. -/
theorem century_eq {doe c yoe : ℕ} (h : doe < 146096) (hc : c = doe / 36524)
    (hyoe : yoe = (doe - doe / 1460 + c) / 365) : yoe / 100 = c := by
  have hlow : 36524 * c ≤ doe := by omega
  have hhigh : doe < 36524 * c + 36524 := by omega
  have hcases : c = 0 ∨ c = 1 ∨ c = 2 ∨ c = 3 := by omega
  rcases hcases with rfl | rfl | rfl | rfl <;> omega

/-- The year has begun on the day and has at most 366 days. -/
theorem year_start {doe : ℕ} (h : doe < 146097) :
    365 * yearOfEra doe + yearOfEra doe / 4 - yearOfEra doe / 100 ≤ doe ∧ dayOfYear doe ≤ 365 := by
  by_cases hlast : doe = 146096
  · subst hlast
    decide
  · have hbefore : doe < 146096 := by omega
    have hyear : yearOfEra doe = (doe - doe / 1460 + doe / 36524) / 365 := by
      rw [yearOfEra, Nat.div_eq_of_lt hbefore]
      rfl
    unfold dayOfYear
    generalize yearOfEra doe = yoe at *
    have hcentury := century_eq hbefore rfl hyear
    rw [hcentury]
    generalize hc : doe / 36524 = c at *
    have hlow : 36524 * c ≤ doe := by omega
    have hhigh : doe < 36524 * c + 36524 := by omega
    have hcases : c = 0 ∨ c = 1 ∨ c = 2 ∨ c = 3 := by omega
    constructor
    · rcases hcases with rfl | rfl | rfl | rfl <;> omega
    · rcases hcases with rfl | rfl | rfl | rfl <;> omega

theorem month_start {doy : ℕ} (h : doy ≤ 365) :
    marchMonth doy ≤ 11 ∧ (153 * marchMonth doy + 2) / 5 ≤ doy ∧ dayOfMonth doy ≤ 31 := by
  unfold dayOfMonth marchMonth
  omega

theorem year_mono {a b : ℕ} (hab : a ≤ b) (hb : b < 146097) : yearOfEra a ≤ yearOfEra b := by
  have hyears : a - a / 1460 ≤ b - b / 1460 := by omega
  have hcenturies : a / 36524 - a / 146096 ≤ b / 36524 - b / 146096 := by omega
  apply Nat.div_le_div_right
  omega

theorem civilDate_eq (days : ℕ) :
    civilDate days =
      let doy := dayOfYear (dayOfEra days)
      let month := if marchMonth doy < 10 then marchMonth doy + 3 else marchMonth doy - 9
      (marchYear days + (if month ≤ 2 then 1 else 0), month, dayOfMonth doy) := rfl

theorem yearOfEra_lt {doe : ℕ} (h : doe < 146097) : yearOfEra doe < 400 := by
  unfold yearOfEra
  omega

/-- A later day has a later date, by year, month and day. -/
theorem marchDate_mono {a b : ℕ} (hab : a < b) :
    marchYear a < marchYear b ∨ marchYear a = marchYear b ∧
      (marchMonth (dayOfYear (dayOfEra a)) < marchMonth (dayOfYear (dayOfEra b)) ∨
        marchMonth (dayOfYear (dayOfEra a)) = marchMonth (dayOfYear (dayOfEra b)) ∧
          dayOfMonth (dayOfYear (dayOfEra a)) < dayOfMonth (dayOfYear (dayOfEra b))) := by
  have hdoe : dayOfEra a < 146097 := Nat.mod_lt _ (by decide)
  have hdoe' : dayOfEra b < 146097 := Nat.mod_lt _ (by decide)
  have hyear := yearOfEra_lt hdoe
  have hyear' := yearOfEra_lt hdoe'
  by_cases hera : (a + 719468) / 146097 = (b + 719468) / 146097
  · have hlt : dayOfEra a < dayOfEra b := by
      unfold dayOfEra
      omega
    have hyears : yearOfEra (dayOfEra a) ≤ yearOfEra (dayOfEra b) :=
      year_mono (Nat.le_of_lt hlt) hdoe'
    by_cases hsame : yearOfEra (dayOfEra a) = yearOfEra (dayOfEra b)
    · refine Or.inr ⟨by rw [marchYear, marchYear, hsame, hera], ?_⟩
      obtain ⟨hstart, hbound⟩ := year_start hdoe
      obtain ⟨hstart', hbound'⟩ := year_start hdoe'
      have hdays : dayOfYear (dayOfEra a) < dayOfYear (dayOfEra b) := by
        unfold dayOfYear
        rw [← hsame] at hstart' ⊢
        omega
      generalize dayOfYear (dayOfEra a) = doy at *
      generalize dayOfYear (dayOfEra b) = doy' at *
      obtain ⟨_, hmonth, _⟩ := month_start hbound
      obtain ⟨_, hmonth', _⟩ := month_start hbound'
      unfold dayOfMonth marchMonth
      unfold marchMonth at hmonth hmonth'
      omega
    · left
      unfold marchYear
      omega
  · left
    have hlt : (a + 719468) / 146097 < (b + 719468) / 146097 := by omega
    unfold marchYear
    omega

theorem marchMonth_le (days : ℕ) : marchMonth (dayOfYear (dayOfEra days)) ≤ 11 ∧
    dayOfMonth (dayOfYear (dayOfEra days)) ≤ 31 := by
  obtain ⟨_, hbound⟩ := year_start (Nat.mod_lt (days + 719468) (by decide))
  obtain ⟨hmonth, _, hday⟩ := month_start hbound
  exact ⟨hmonth, hday⟩

/-- A later day has a later civil date. -/
theorem civilDate_mono {a b : ℕ} (hab : a < b) :
    [(civilDate a).1, (civilDate a).2.1, (civilDate a).2.2] <
      [(civilDate b).1, (civilDate b).2.1, (civilDate b).2.2] := by
  have hmono := marchDate_mono hab
  obtain ⟨hmonth, _⟩ := marchMonth_le a
  obtain ⟨hmonth', _⟩ := marchMonth_le b
  rw [civilDate_eq, civilDate_eq]
  simp only [List.cons_lt_cons_iff, List.lt_irrefl, and_false, or_false]
  split_ifs <;> omega

/-- The parts of a date fit into their fields. -/
theorem civilDate_bounds (days : ℕ) : 1 ≤ (civilDate days).2.1 ∧ (civilDate days).2.1 ≤ 12 ∧
    (civilDate days).2.2 ≤ 31 := by
  obtain ⟨hmonth, hday⟩ := marchMonth_le days
  rw [civilDate_eq]
  refine ⟨?_, ?_, hday⟩
  · dsimp only
    split_ifs <;> omega
  · dsimp only
    split_ifs <;> omega

end Calendar

section Texts

/-- The fields of a text and what follows each. -/
def shape : List (ℕ × Char) :=
  [(4, '-'), (2, '-'), (2, 'T'), (2, ':'), (2, ':'), (2, '.'), (3, 'Z')]

def fields (ms : ℕ) : List ℕ :=
  let date := civilDate (ms / 86400000)
  let time := ms % 86400000
  [date.1, date.2.1, date.2.2, time / 3600000, time / 60000 % 60, time / 1000 % 60, time % 1000]

theorem toList_padLeft {w n : ℕ} (hw : 0 < w) (hn : n < 10 ^ w) :
    (padLeft w n).toList = fixed w n := by
  have hdigits : (toString n).toList = Nat.toDigits 10 n := Nat.toList_repr
  rw [← replicate_toDigits hw hn, padLeft, String.toList_append, hdigits, ← String.length_toList,
    hdigits]
  simp

theorem fits_fields {ms : ℕ} (h : (civilDate (ms / 86400000)).1 ≤ 9999) :
    Fits shape (fields ms) := by
  obtain ⟨_, hmonth, hday⟩ := civilDate_bounds (ms / 86400000)
  unfold Fits shape fields
  refine ⟨?_, ?_, ?_, ?_, ?_, ?_, ?_, trivial⟩ <;> norm_num <;> omega

/-- The text of a time up to the year 9999. -/
theorem toList_toISOString {ms : ℕ} (h : (civilDate (ms / 86400000)).1 ≤ 9999) :
    (toISOString ms).toList = spelled shape (fields ms) := by
  obtain ⟨hyear, hmonth, hday, hhour, hminute, hsecond, hms, _⟩ := fits_fields h
  unfold toISOString
  dsimp only
  rw [if_pos h]
  simp only [String.toList_append, toList_padLeft (by decide) hyear,
    toList_padLeft (by decide) hmonth, toList_padLeft (by decide) hday,
    toList_padLeft (by decide) hhour, toList_padLeft (by decide) hminute,
    toList_padLeft (by decide) hsecond, toList_padLeft (by decide) hms]
  simp [spelled, shape, fields]

end Texts

section Order

/-- The first millisecond of the year 10000. -/
def year10000 : ℕ := 253402300800000

theorem year_le {ms : ℕ} (h : ms < year10000) : (civilDate (ms / 86400000)).1 ≤ 9999 := by
  have hdays : ms / 86400000 < 2932897 := by
    unfold year10000 at h
    omega
  obtain ⟨hmonth, _, _⟩ := civilDate_bounds (ms / 86400000)
  have hlater := civilDate_mono hdays
  have hlast : civilDate 2932897 = (10000, 1, 1) := by decide +kernel
  rw [hlast] at hlater
  simp only [List.cons_lt_cons_iff, List.lt_irrefl, and_false, or_false] at hlater
  have hday : 1 ≤ (civilDate (ms / 86400000)).2.2 := Nat.le_add_left 1 _
  omega

theorem fields_lt {a b : ℕ} (h : a < b) : fields a < fields b := by
  by_cases hdays : a / 86400000 = b / 86400000
  · have htime : a % 86400000 < b % 86400000 := by omega
    unfold fields
    dsimp only
    rw [hdays]
    generalize a % 86400000 = time at *
    generalize b % 86400000 = time' at *
    simp only [List.cons_lt_cons_iff, Nat.lt_irrefl, List.lt_irrefl, true_and, and_false, or_false,
      false_or]
    omega
  · have hlt : a / 86400000 < b / 86400000 := by omega
    exact append_lt_append_right (civilDate_mono hlt) (by simp) _ _

theorem toISOString_lt {a b : ℕ} (h : a < b) (hb : b < year10000) :
    toISOString a < toISOString b := by
  have hyear := year_le (h.trans hb)
  have hyear' := year_le hb
  rw [String.lt_iff, toList_toISOString hyear, toList_toISOString hyear']
  exact spelled_lt (fits_fields hyear) (fits_fields hyear') (fields_lt h)

theorem toISOString_injective {a b : ℕ} (ha : a < year10000) (hb : b < year10000)
    (h : toISOString a = toISOString b) : a = b := by
  rcases Nat.lt_trichotomy a b with hlt | heq | hgt
  · have hless := toISOString_lt hlt hb
    rw [h] at hless
    exact absurd hless (String.lt_irrefl _)
  · exact heq
  · have hless := toISOString_lt hgt ha
    rw [h] at hless
    exact absurd hless (String.lt_irrefl _)

end Order

end OktaScim.IsoDates
