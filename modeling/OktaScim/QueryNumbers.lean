import OktaScim.Doubles
import OktaScim.EqFilterGrammar
import Mathlib.Algebra.Order.Field.Rat
import Mathlib.Algebra.Field.Rat
import Mathlib.Data.List.TakeWhile

/-!
The paging parameters of a list request, from `parsePagination`, and `Number`
of a query parameter: a number is rounded to a double, and one beyond their
range is infinite. NaN and the infinite numbers, which the callers do not tell
apart, are `none`.
-/
namespace OktaScim.QueryNumbers

open ScimFilter Doubles

section Texts

def trim (cs : List Char) : List Char :=
  ((cs.dropWhile isSpace).reverse.dropWhile isSpace).reverse

/-- A sign and what follows it; the flag is for minus. -/
def sign : List Char → Bool × List Char
  | '-' :: cs => (true, cs)
  | '+' :: cs => (false, cs)
  | cs => (false, cs)

/-- The digits of a fraction and what follows them. -/
def fraction : List Char → List Char × List Char
  | '.' :: cs => (cs.takeWhile Char.isDigit, cs.dropWhile Char.isDigit)
  | cs => ([], cs)

/-- The exponent that ends a number, 0 when there is none. -/
def exponent : List Char → Option ℤ
  | [] => some 0
  | e :: cs =>
    let ds := (sign cs).2
    if e.toLower = 'e' ∧ ds ≠ [] ∧ ds.all Char.isDigit then
      some (if (sign cs).1 then -(Nat.ofDigitChars 10 ds 0 : ℤ) else Nat.ofDigitChars 10 ds 0)
    else none

def decimal (cs : List Char) : Option ℚ :=
  let int := cs.takeWhile Char.isDigit
  let frac := fraction (cs.dropWhile Char.isDigit)
  if int = [] ∧ frac.1 = [] then none
  else
    (exponent frac.2).map fun k : ℤ =>
      (Nat.ofDigitChars 10 (int ++ frac.1) 0 : ℚ) * 10 ^ (k - (frac.1.length : ℤ))

def digitOf (c : Char) : ℕ := if c.isDigit then c.toNat - 48 else c.toLower.toNat - 87

/-- A number in the base of its prefix. -/
def based (base : ℕ) (ds : List Char) : Option ℚ :=
  if ds ≠ [] ∧ ds.all (fun c => c.isAlphanum && digitOf c < base) then
    some (ds.foldl (fun n c => base * n + digitOf c) 0 : ℕ)
  else none

/-- The base that the letter after a leading zero stands for. -/
def baseOf (c : Char) : Option ℕ :=
  if c.toLower = 'x' then some 16
  else if c.toLower = 'o' then some 8
  else if c.toLower = 'b' then some 2
  else none

def numeral (cs : List Char) : Option ℚ :=
  match cs with
  | [] => some 0
  | '0' :: c :: ds =>
    match baseOf c with
    | some base => based base ds
    | none => decimal cs
  | cs =>
    if (sign cs).1 then (decimal (sign cs).2).map (-·) else decimal (sign cs).2

/-- Half a unit above the greatest double. -/
@[irreducible] def infinity : ℕ := 2 ^ 1024 - 2 ^ 970

theorem two_pow_lt_infinity : 2 ^ 64 < infinity := by
  unfold infinity
  decide +kernel

/-- `Number(text)` when it is finite. -/
def number (text : Option String) : Option ℚ :=
  match text with
  | none => none
  | some s => ((numeral (trim s.toList)).filter (fun q : ℚ => |q| < infinity)).map nearest

/-- A number is a double. -/
theorem nearest_number {text : Option String} {q : ℚ} (h : number text = some q) (hq : 0 ≤ q) :
    nearest q = q := by
  cases text with
  | none => contradiction
  | some s =>
    obtain ⟨r, _, rfl⟩ := Option.map_eq_some_iff.mp h
    rcases le_or_gt 0 r with hr | hr
    · exact nearest_nearest hr
    · have hzero : nearest r = 0 := le_antisymm (nearest_nonpos hr.le) hq
      rw [hzero, nearest_zero]

end Texts

/-- `Number.isFinite(x) && x >= least ? x : otherwise` -/
def atLeast (least otherwise : ℚ) (x : Option ℚ) : ℚ :=
  (x.filter (fun q => least ≤ q)).getD otherwise

def parsePagination (startIndex count : Option String) : Pagination where
  startIndex := atLeast 1 1 (number startIndex)
  count := atLeast 0 100 (number count)

section WholeNumbers

open EqFilterGrammar

theorem digit_facts {c : Char} (h : c.isDigit = true) :
    isSpace c = false ∧ c ≠ '-' ∧ c ≠ '+' ∧ baseOf c = none := by
  have hword : isWord c = true := by simp [isWord, Char.isAlphanum, h]
  refine ⟨?_, ?_, ?_, ?_⟩
  · by_contra hspace
    have hnot := (space_cases (Bool.eq_true_of_not_eq_false hspace)).1
    simp [hword] at hnot
  · rintro rfl
    exact absurd h (by decide)
  · rintro rfl
    exact absurd h (by decide)
  · have hall : ∀ k < 128, (Char.ofNat k).isDigit = true → baseOf (Char.ofNat k) = none := by
      decide
    have hc := hall c.toNat (word_lt hword)
    rw [Char.ofNat_toNat] at hc
    exact hc h

theorem trim_eq_self {cs : List Char} (h : ∀ c ∈ cs, isSpace c = false) : trim cs = cs := by
  have hdrop : ∀ l : List Char, (∀ c ∈ l, isSpace c = false) → l.dropWhile isSpace = l := by
    intro l hl
    cases l with
    | nil => rfl
    | cons c l => rw [List.dropWhile_cons_of_neg (by simp [hl c (List.mem_cons_self ..)])]
  unfold trim
  rw [hdrop cs h, hdrop cs.reverse (fun c hc => h c (List.mem_reverse.mp hc)), List.reverse_reverse]

theorem decimal_digits {cs : List Char} (hne : cs ≠ []) (h : ∀ c ∈ cs, c.isDigit = true) :
    decimal cs = some (Nat.ofDigitChars 10 cs 0 : ℚ) := by
  have htake : cs.takeWhile Char.isDigit = cs := List.takeWhile_eq_self_iff.mpr h
  have hdrop : cs.dropWhile Char.isDigit = [] := List.dropWhile_eq_nil_iff.mpr h
  simp [decimal, htake, hdrop, fraction, exponent, hne]

theorem numeral_digits {cs : List Char} (hne : cs ≠ []) (h : ∀ c ∈ cs, c.isDigit = true) :
    numeral cs = some (Nat.ofDigitChars 10 cs 0 : ℚ) := by
  unfold numeral
  split
  · contradiction
  · rename_i c ds
    have hc := h c (by simp)
    rw [(digit_facts hc).2.2.2]
    exact decimal_digits hne h
  · have hsign : sign cs = (false, cs) := by
      unfold sign
      split
      · exact absurd (h '-' (by simp)) (by decide)
      · exact absurd (h '+' (by simp)) (by decide)
      · rfl
    rw [hsign]
    exact decimal_digits hne h

/-- A whole number is read from its decimal digits. -/
theorem number_toString (n : ℕ) :
    number (some (toString n)) = if n < infinity then some (nearest n) else none := by
  have hdigit : ∀ c ∈ Nat.toDigits 10 n, c.isDigit = true := by
    intro c hc
    exact Nat.isDigit_of_mem_toDigits (by omega) (by omega) hc
  have htext : (toString n).toList = Nat.toDigits 10 n := by
    rw [Nat.toString_eq_ofList_toDigits, String.toList_ofList]
  simp only [number]
  rw [htext, trim_eq_self fun c hc => (digit_facts (hdigit c hc)).1,
    numeral_digits Nat.toDigits_ne_nil hdigit, Nat.ofDigitChars_ten_toDigits]
  split
  · rename_i hlt
    simp [Option.filter, hlt]
  · rename_i hlt
    simp [Option.filter, hlt]

/-- A whole number as `parsePagination` takes it. -/
def finiteOr (otherwise n : ℕ) : ℚ := if n < infinity then nearest n else otherwise

theorem one_le_nearest {n : ℕ} (hn : 1 ≤ n) : 1 ≤ nearest n := by
  have hmono := nearest_mono (q := (1 : ℕ)) (r := n) (by simp) (by exact_mod_cast hn)
  rwa [nearest_natCast (by omega), Nat.cast_one] at hmono

theorem parsePagination_toString {start : ℕ} (hstart : 1 ≤ start) (count : ℕ) :
    parsePagination (some (toString start)) (some (toString count)) =
      ⟨finiteOr 1 start, finiteOr 100 count⟩ := by
  have hone := one_le_nearest hstart
  have hzero : 0 ≤ nearest (count : ℚ) := nearest_nonneg (by simp)
  unfold parsePagination atLeast finiteOr
  rw [number_toString, number_toString]
  congr 1
  · split
    · simp [Option.filter, hone]
    · simp
  · split
    · simp [Option.filter, hzero]
    · simp

end WholeNumbers

end OktaScim.QueryNumbers
